import Lodestar.Chain.BlsJobs
/-!
# BlsSettles — every call of the pool gets the answer to its own sets

A worker's results come back in the order of its package, so a job is settled with the result of its own request or with an
error that was reported for it.  A call is rejected, finished, or waits for a job that is queued or with a worker.
-/
namespace Lodestar.Bls

open Lib Runs

variable {bls : Library}

namespace Pool

/-! ## What a job was settled with -/

/-- The callback reports an error for a job: its worker's communication failed, or no worker could be initialized. -/
def Reports (pool : Pool bls) (label : Label bls) (key : Nat × Nat) (error : String) : Prop :=
  match label with
  | .reply worker failure => failure = some error ∧ ∃ jobs, pool.workers[worker]? = some (.running jobs) ∧ key ∈ jobs.map (·.key)
  | .verify sets validateSignature => pool.initializationError = some error ∧ key ∈ (newJobs pool
      (workRequests validateSignature (chunkifyMaximizeChunkSize sets MAX_SIGNATURE_SETS_PER_JOB)).1).map (·.key)
  | _ => False

def requestOf (pool : Pool bls) (key : Nat × Nat) : Option BlsWorkReq := (pool.calls[key.1]?).bind fun call => call.requests[key.2]?

variable {label : Label bls} {pool pool' : Pool bls}

theorem Turn.calls (hturn : Turn pool label pool') :
    ∃ more, pool'.calls = pool.calls ++ more := by
  cases hturn with
  | verify sets validateSignature requests thrown queued hsets hbuilt hqueued =>
    exact ⟨[⟨sets, validateSignature, requests, thrown⟩], by rw [← hqueued.calls]⟩
  | spawned worker hworker => exact ⟨[], (List.append_nil _).symm⟩
  | failed worker error hworker => exact ⟨[], (List.append_nil _).symm⟩
  | spent hruns hwhy => exact ⟨[], (List.append_nil _).symm⟩
  | sent worker jobs rest hruns hworker hjobs hne => exact ⟨[], (List.append_nil _).symm⟩
  | reply worker jobs failure hworker => exact ⟨[], (List.append_nil _).symm⟩

variable {key : Nat × Nat} {workReq : BlsWorkReq}

theorem Turn.requestOf (hturn : Turn pool label pool') (h : pool.requestOf key = some workReq) :
    pool'.requestOf key = some workReq := by
  obtain ⟨more, hcalls⟩ := hturn.calls
  obtain ⟨call, hcall, hrequest⟩ := Option.bind_eq_some_iff.1 h
  unfold Pool.requestOf
  rw [hcalls, getElem?_calls hcall]
  exact hrequest

theorem Turn.settles (hturn : Turn pool label pool') (h : pool.Sound) :
    ∃ new, pool'.settled = pool.settled ++ new ∧
      (∀ entry ∈ new, ∃ workReq, pool'.requestOf entry.1 = some workReq ∧
        (entry.2 = doBlsWorkReq bls workReq ∨ ∃ error, entry.2 = .error error ∧ pool.Reports label entry.1 error)) ∧
      ∀ key error, pool.Reports label key error → (key, .error error) ∈ new := by
  cases hturn with
  | verify sets validateSignature requests thrown queued hsets hbuilt hqueued =>
    rcases hqueued.added with ⟨hnone, -, hsettled, -⟩ | ⟨error, herror, -, hsettled, -⟩
    · refine ⟨[], by rw [List.append_nil]; exact hsettled, fun entry hentry => absurd hentry List.not_mem_nil, ?_⟩
      rintro key error ⟨herror, -⟩
      rw [hnone] at herror
      cases herror
    · refine ⟨_, hsettled, fun entry hentry => ?_, ?_⟩
      · obtain ⟨job, hjob, rfl⟩ := List.mem_map.1 hentry
        have hreports : pool.Reports (.verify sets validateSignature) job.key error := by
          refine ⟨herror, List.mem_map_of_mem ?_⟩
          rw [hbuilt]
          exact hjob
        obtain ⟨entry, hmem, rfl⟩ := List.mem_map.1 hjob
        refine ⟨entry.1, ?_, .inr ⟨error, rfl, hreports⟩⟩
        unfold Pool.requestOf JobQueueItem.key
        rw [hqueued.calls, List.getElem?_concat_length]
        exact List.mem_zipIdx_iff_getElem?.1 hmem
      · rintro key error' ⟨herror', hkey⟩
        rw [herror] at herror'
        cases herror'
        rw [hbuilt] at hkey
        obtain ⟨job, hjob, rfl⟩ := List.mem_map.1 hkey
        exact List.mem_map_of_mem hjob
  | reply worker jobs failure hworker =>
    refine ⟨_, rfl, fun entry hentry => ?_, ?_⟩
    · obtain ⟨job, hjob, rfl⟩ := List.mem_map.1 hentry
      have hmem : job ∈ pool.outstanding :=
        List.mem_append_right _ (List.mem_flatMap.2 ⟨_, List.mem_of_getElem? hworker, hjob⟩)
      obtain ⟨call, hcall, hown⟩ := h.own job hmem
      refine ⟨job.workReq, ?_, ?_⟩
      · unfold Pool.requestOf JobQueueItem.key
        rw [hcall]
        exact hown
      · cases failure with
        | none => exact .inl rfl
        | some error => exact .inr ⟨error, rfl, rfl, jobs, hworker, List.mem_map_of_mem hjob⟩
    · rintro key error ⟨rfl, jobs', hworker', hkey⟩
      rw [hworker] at hworker'
      cases hworker'
      obtain ⟨job, hjob, rfl⟩ := List.mem_map.1 hkey
      exact List.mem_map_of_mem hjob
  | spawned worker hworker =>
    exact ⟨[], (List.append_nil _).symm, fun entry hentry => absurd hentry List.not_mem_nil, fun key error h => h.elim⟩
  | failed worker error hworker =>
    exact ⟨[], (List.append_nil _).symm, fun entry hentry => absurd hentry List.not_mem_nil, fun key error h => h.elim⟩
  | spent hruns hwhy =>
    exact ⟨[], (List.append_nil _).symm, fun entry hentry => absurd hentry List.not_mem_nil, fun key error h => h.elim⟩
  | sent worker jobs rest hruns hworker hjobs hne =>
    exact ⟨[], (List.append_nil _).symm, fun entry hentry => absurd hentry List.not_mem_nil, fun key error h => h.elim⟩

/-- What is known of the settled jobs after a run. -/
structure Explained (steps : List (Pool bls × Label bls)) (pool : Pool bls) : Prop where
  /-- A job was settled with the result of its own request, or with an error that was reported for it. -/
  own : ∀ entry ∈ pool.settled, ∃ workReq, pool.requestOf entry.1 = some workReq ∧
    (entry.2 = doBlsWorkReq bls workReq ∨
      ∃ error, entry.2 = .error error ∧ ∃ step ∈ steps, step.1.Reports step.2 entry.1 error)
  reported : ∀ step ∈ steps, ∀ key error, step.1.Reports step.2 key error → (key, .error error) ∈ pool.settled

variable {poolSize : Nat} {steps : List (Pool bls × Label bls)} {pool : Pool bls}

theorem run_sound (hrun : Run next (start poolSize) steps pool) : pool.Sound :=
  hrun.invariant (sound_start poolSize) fun _ _ _ hnext h => (next_turn hnext).sound h

theorem run_explained (hrun : Run next (start poolSize) steps pool) : Explained steps pool := by
  induction hrun with
  | refl => exact ⟨fun entry hentry => absurd hentry List.not_mem_nil, fun step hstep => absurd hstep List.not_mem_nil⟩
  | @step steps pool pool' label hrun hnext ih =>
    have hturn := next_turn hnext
    obtain ⟨new, hsettled, hnew, hreports⟩ := hturn.settles (run_sound hrun)
    refine ⟨fun entry hentry => ?_, fun step hstep key error hreport => ?_⟩
    · rw [hsettled] at hentry
      rcases List.mem_append.1 hentry with hold | hlast
      · obtain ⟨workReq, hrequest, hwhy⟩ := ih.own entry hold
        refine ⟨workReq, hturn.requestOf hrequest, hwhy.imp_right ?_⟩
        rintro ⟨error, herror, step, hstep, hreport⟩
        exact ⟨error, herror, step, List.mem_append_left _ hstep, hreport⟩
      · obtain ⟨workReq, hrequest, hwhy⟩ := hnew entry hlast
        refine ⟨workReq, hrequest, hwhy.imp_right ?_⟩
        rintro ⟨error, herror, hreport⟩
        exact ⟨error, herror, _, List.mem_append_right _ (List.mem_singleton.2 rfl), hreport⟩
    · rw [hsettled]
      rcases List.mem_append.1 hstep with hold | hlast
      · exact List.mem_append_left _ (ih.reported step hold key error hreport)
      · cases List.mem_singleton.1 hlast
        exact List.mem_append_right _ (hreports key error hreport)

/-! ## What a call returns -/

/-- All chunks of the call were queued, and each of its jobs has a result. -/
def Finished (pool : Pool bls) (c : Nat) (call : Call bls) : Prop :=
  call.thrown = none ∧ ∀ i < call.requests.length, ∃ isValid, pool.settlement (c, i) = some (.ok isValid)

variable {isValid : Bool}

theorem resolution_eq_some :
    pool.resolution key = some isValid ↔ pool.settlement key = some (.ok isValid) := by
  unfold resolution
  split
  · rename_i isValid' h
    rw [h]
    simp
  · rename_i hnot
    constructor
    · intro h
      cases h
    · intro h
      exact absurd h (hnot isValid)

theorem rejection_eq_some {error : String} :
    pool.rejection key = some error ↔ pool.settlement key = some (.error error) := by
  unfold rejection
  split
  · rename_i error' h
    rw [h]
    simp
  · rename_i hnot
    constructor
    · intro h
      cases h
    · intro h
      exact absurd h (hnot error)

theorem Sound.rejections (h : pool.Sound) (promises : List (Nat × Nat)) :
    (pool.settled.findSome? fun entry => if entry.1 ∈ promises then pool.rejection entry.1 else none) = none ↔
      ∀ key ∈ promises, ∀ error, pool.settlement key ≠ some (.error error) := by
  rw [List.findSome?_eq_none_iff]
  constructor
  · intro hnone key hkey error herror
    have hentry := hnone _ (h.settlement_eq.1 herror)
    rw [if_pos hkey, rejection_eq_some.2 herror] at hentry
    cases hentry
  · intro hnone entry _
    split
    · rename_i hkey
      cases hrejection : pool.rejection entry.1 with
      | none => rfl
      | some error => exact absurd (rejection_eq_some.1 hrejection) (hnone entry.1 hkey error)
    · rfl

variable {call : Call bls}

theorem Sound.thrown_iff (h : pool.Sound) (hcall : call ∈ pool.calls) :
    call.thrown ≠ none ↔ ∃ set ∈ call.sets, ∃ error, set.getAggregatedPubkey = .error error := by
  obtain ⟨-, hbuilt⟩ := h.built call hcall
  have hflatten := chunkify_flatten call.sets MAX_SIGNATURE_SETS_PER_JOB
  have hcases := @workRequests_eq bls call.validateSignature (chunkifyMaximizeChunkSize call.sets MAX_SIGNATURE_SETS_PER_JOB)
  rw [hbuilt] at hcases
  constructor
  · intro hthrown
    rcases hcases with ⟨hnone, -⟩ | ⟨-, chunk, hchunk, herror⟩
    · exact absurd hnone hthrown
    · obtain ⟨set, hset, hkey⟩ := toWorkReq_error_iff.1 herror
      refine ⟨set, ?_, hkey⟩
      rw [← hflatten]
      exact List.mem_flatten.2 ⟨chunk, hchunk, hset⟩
  · rintro ⟨set, hset, hkey⟩ hnone
    rcases hcases with ⟨-, hall⟩ | ⟨⟨error, herror⟩, -⟩
    · rw [← hflatten] at hset
      obtain ⟨chunk, hchunk, hset⟩ := List.mem_flatten.1 hset
      obtain ⟨error, herror⟩ := toWorkReq_error_iff.2 ⟨set, hset, hkey⟩
      obtain ⟨i, hi, rfl⟩ := List.mem_iff_getElem.1 hchunk
      have hok := hall.get hi (hall.length_eq ▸ hi)
      rw [List.get_eq_getElem] at hok
      rw [herror] at hok
      cases hok
    · dsimp only at herror
      rw [hnone] at herror
      cases herror

def promises (c : Nat) (call : Call bls) : List (Nat × Nat) := (List.range call.requests.length).map fun i => (c, i)

variable {c : Nat}

theorem outcome_finished (h : pool.Sound) {results : List Bool} (hthrown : call.thrown = none) (hne : call.requests ≠ [])
    (hresults : List.Forall₂ (fun key isValid => pool.settlement key = some (.ok isValid)) (promises c call) results) :
    pool.outcome c call = some (.ok (results.all (· == true))) := by
  have hnone : ∀ key ∈ promises c call, ∀ error, pool.settlement key ≠ some (.error error) := by
    intro key hkey error herror
    obtain ⟨i, hi, rfl⟩ := List.mem_iff_getElem.1 hkey
    have hok := hresults.get hi (hresults.length_eq ▸ hi)
    rw [List.get_eq_getElem, herror] at hok
    cases hok
  have hmapM : (promises c call).mapM pool.resolution = some results :=
    mapM_eq_some_iff.2 (hresults.imp fun key isValid hok => resolution_eq_some.2 hok)
  have hlen : results.length ≠ 0 := by
    rw [← hresults.length_eq, promises, List.length_map, List.length_range]
    exact fun hzero => hne (List.eq_nil_of_length_eq_zero hzero)
  unfold outcome
  dsimp only
  rw [hthrown, show (List.range call.requests.length).map (fun i => (c, i)) = promises c call from rfl,
    (h.rejections (promises c call)).2 hnone, hmapM]
  dsimp only [Option.map_some]
  rw [if_neg hlen]

theorem outcome_rejected (h : pool.Sound)
    (hrejected : call.thrown ≠ none ∨ ∃ i < call.requests.length, ∃ error, pool.settlement (c, i) = some (.error error)) :
    ∃ error, pool.outcome c call = some (.error error) := by
  unfold outcome
  cases hthrown : call.thrown with
  | some error => exact ⟨error, rfl⟩
  | none =>
    obtain ⟨i, hi, error, herror⟩ := hrejected.resolve_left fun hne => hne hthrown
    have hmem : (c, i) ∈ promises c call := List.mem_map_of_mem (List.mem_range.2 hi)
    dsimp only
    split
    · rename_i error' _
      exact ⟨error', rfl⟩
    · rename_i hnone
      exact absurd herror ((h.rejections (promises c call)).1 hnone (c, i) hmem error)

theorem outcome_pending (h : pool.Sound) (hthrown : call.thrown = none)
    (hnone : ∀ i < call.requests.length, ∀ error, pool.settlement (c, i) ≠ some (.error error))
    (hpending : ∃ i < call.requests.length, pool.settlement (c, i) = none) : pool.outcome c call = none := by
  have hrejections : ∀ key ∈ promises c call, ∀ error, pool.settlement key ≠ some (.error error) := by
    intro key hkey error
    obtain ⟨i, hi, rfl⟩ := List.mem_map.1 hkey
    exact hnone i (List.mem_range.1 hi) error
  unfold outcome
  dsimp only
  rw [hthrown, show (List.range call.requests.length).map (fun i => (c, i)) = promises c call from rfl,
    (h.rejections (promises c call)).2 hrejections]
  rw [Option.map_eq_none_iff, Option.eq_none_iff_forall_ne_some]
  intro results hresults
  obtain ⟨i, hi, hpending⟩ := hpending
  have hall := mapM_eq_some_iff.1 hresults
  have hlt : i < (promises c call).length := by
    rw [promises, List.length_map, List.length_range]
    exact hi
  have hkey : (promises c call).get ⟨i, hlt⟩ = (c, i) := by simp [promises]
  have hok := hall.get hlt (hall.length_eq ▸ hlt)
  rw [hkey, resolution_eq_some, hpending] at hok
  cases hok

theorem Sound.requests_ne_nil (h : pool.Sound) (hcall : call ∈ pool.calls) (hthrown : call.thrown = none) : call.requests ≠ [] ∧
      List.Forall₂ (fun chunk workReq => chunk ≠ [] ∧ toWorkReq call.validateSignature chunk = .ok workReq)
        (chunkifyMaximizeChunkSize call.sets MAX_SIGNATURE_SETS_PER_JOB) call.requests := by
  obtain ⟨hsets, hbuilt⟩ := h.built call hcall
  have hcases := @workRequests_eq bls call.validateSignature (chunkifyMaximizeChunkSize call.sets MAX_SIGNATURE_SETS_PER_JOB)
  rw [hbuilt] at hcases
  rcases hcases with ⟨-, hall⟩ | ⟨⟨error, herror⟩, -⟩
  · refine ⟨fun hnil => ?_, ?_⟩
    · dsimp only at hall
      rw [hnil, List.forall₂_nil_right_iff] at hall
      have hflatten := chunkify_flatten call.sets MAX_SIGNATURE_SETS_PER_JOB
      rw [hall] at hflatten
      exact hsets hflatten.symm
    · rw [List.forall₂_and_left]
      exact ⟨chunkify_ne_nil hsets _, hall⟩
  · dsimp only at herror
    rw [hthrown] at herror
    cases herror

theorem job_result (hbls : Lawful bls) (h : pool.Sound) (hexplained : Explained steps pool) {c i : Nat}
    (hcall : pool.calls[c]? = some call) (hrequest : call.requests[i]? = some workReq) {chunk : List (SignatureSet bls)}
    (hne : chunk ≠ []) (hchunk : toWorkReq call.validateSignature chunk = .ok workReq)
    (hsettled : pool.settlement (c, i) = some (.ok isValid)) :
    isValid = true ↔ ∀ set ∈ chunk, Verifies call.validateSignature set := by
  obtain ⟨workReq', hrequest', hwhy⟩ := hexplained.own _ (h.settlement_eq.1 hsettled)
  unfold requestOf at hrequest'
  rw [hcall, Option.bind_some, hrequest, Option.some.injEq] at hrequest'
  subst hrequest'
  rcases hwhy with hresult | ⟨error, herror, -⟩
  · exact doBlsWorkReq_eq_ok hbls hne hchunk hresult.symm
  · cases herror

theorem finished_results (hbls : Lawful bls) (h : pool.Sound) (hexplained : Explained steps pool)
    (hcall : pool.calls[c]? = some call) (hfinished : pool.Finished c call) : ∃ isValid, pool.outcome c call = some (.ok isValid) ∧
      (isValid = true ↔ ∀ set ∈ call.sets, Verifies call.validateSignature set) := by
  obtain ⟨hthrown, hall⟩ := hfinished
  obtain ⟨hne, hrequests⟩ := h.requests_ne_nil (List.mem_of_getElem? hcall) hthrown
  have hsettled : ∀ i < call.requests.length, pool.settlement (c, i) = some (.ok ((pool.resolution (c, i)).getD false)) := by
    intro i hi
    obtain ⟨isValid, hok⟩ := hall i hi
    rw [resolution_eq_some.2 hok]
    exact hok
  have hresults : List.Forall₂ (fun key isValid => pool.settlement key = some (.ok isValid)) (promises c call)
      ((promises c call).map fun key => (pool.resolution key).getD false) := by
    rw [List.forall₂_map_right_iff, List.forall₂_same]
    intro key hkey
    obtain ⟨i, hi, rfl⟩ := List.mem_map.1 hkey
    exact hsettled i (List.mem_range.1 hi)
  refine ⟨_, outcome_finished h hthrown hne hresults, ?_⟩
  have hjob : ∀ (i : Nat) (hi : i < call.requests.length) (hi' : i < (chunkifyMaximizeChunkSize call.sets MAX_SIGNATURE_SETS_PER_JOB).length),
      (pool.resolution (c, i)).getD false = true ↔
        ∀ set ∈ (chunkifyMaximizeChunkSize call.sets MAX_SIGNATURE_SETS_PER_JOB).get ⟨i, hi'⟩, Verifies call.validateSignature set := by
    intro i hi hi'
    obtain ⟨hchunk, hrequest⟩ := hrequests.get hi' hi
    exact job_result hbls h hexplained hcall (List.getElem?_eq_getElem hi) hchunk hrequest (hsettled i hi)
  have hlen := hrequests.length_eq
  rw [List.all_map, List.all_eq_true]
  constructor
  · intro hvalid set hset
    rw [← chunkify_flatten call.sets MAX_SIGNATURE_SETS_PER_JOB] at hset
    obtain ⟨chunk, hchunk, hset⟩ := List.mem_flatten.1 hset
    obtain ⟨⟨i, hi⟩, rfl⟩ := List.get_of_mem hchunk
    have hmem : (c, i) ∈ promises c call := List.mem_map_of_mem (List.mem_range.2 (hlen ▸ hi))
    exact (hjob i (hlen ▸ hi) hi).1 (by simpa using hvalid _ hmem) set hset
  · intro hverifies key hkey
    obtain ⟨i, hi, rfl⟩ := List.mem_map.1 hkey
    have hi := List.mem_range.1 hi
    have hvalid := (hjob i hi (hlen ▸ hi)).2 fun set hset => hverifies set ?_
    · simpa using hvalid
    · rw [← chunkify_flatten call.sets MAX_SIGNATURE_SETS_PER_JOB]
      exact List.mem_flatten.2 ⟨_, List.get_mem _ _, hset⟩

/-- A job of the call was rejected, or one of its chunks threw before it was queued. -/
def Rejected (pool : Pool bls) (c : Nat) (call : Call bls) : Prop :=
  call.thrown ≠ none ∨ ∃ i < call.requests.length, ∃ error, pool.settlement (c, i) = some (.error error)

theorem Sound.call_cases (h : pool.Sound) (c : Nat) (call : Call bls) :
    pool.Rejected c call ∨ pool.Finished c call ∨
      (pool.outcome c call = none ∧ ∃ i < call.requests.length, pool.settlement (c, i) = none) := by
  by_cases hrejected : pool.Rejected c call
  · exact .inl hrejected
  · right
    obtain ⟨hthrown, hnone⟩ := not_or.1 hrejected
    have hthrown : call.thrown = none := not_not.1 hthrown
    have hnone : ∀ i < call.requests.length, ∀ error, pool.settlement (c, i) ≠ some (.error error) :=
      fun i hi error herror => hnone ⟨i, hi, error, herror⟩
    by_cases hpending : ∃ i < call.requests.length, pool.settlement (c, i) = none
    · exact .inr ⟨outcome_pending h hthrown hnone hpending, hpending⟩
    · refine .inl ⟨hthrown, fun i hi => ?_⟩
      cases hsettled : pool.settlement (c, i) with
      | none => exact absurd ⟨i, hi, hsettled⟩ hpending
      | some result =>
        cases result with
        | error error => exact absurd hsettled (hnone i hi error)
        | ok isValid => exact ⟨isValid, rfl⟩

/-! ## Runs -/

/-- What the pool owes to its callers after some callbacks. -/
structure Settles (steps : List (Pool bls × Label bls)) (pool : Pool bls) : Prop where
  /-- A call resolves exactly where it is finished, to whether all of its own sets verify. -/
  resolves : ∀ c call, pool.calls[c]? = some call → ∀ isValid, pool.outcome c call = some (.ok isValid) ↔
    pool.Finished c call ∧ (isValid = true ↔ ∀ set ∈ call.sets, Verifies call.validateSignature set)
  rejects : ∀ c call, pool.calls[c]? = some call → ((∃ error, pool.outcome c call = some (.error error)) ↔
    (∃ i < call.requests.length, ∃ error, pool.settlement (c, i) = some (.error error)) ∨
      ∃ set ∈ call.sets, ∃ error, set.getAggregatedPubkey = .error error)
  once : ∀ key ∈ pool.keys, (pool.outstanding.map (·.key)).count key + (pool.settled.map (·.1)).count key = 1
  /-- A job is settled with the result of its own request, or with an error that a worker reported for it. -/
  explained : Explained steps pool
  /-- A run of `runJob` is pending while jobs are queued and a worker is idle. -/
  wakes : pool.jobs ≠ [] → (∃ worker ∈ pool.workers, worker.isIdle = true) → 0 < pool.runJobs
  /-- When nothing is left to happen and a worker is idle, every call has returned. -/
  answers : pool.runJobs = 0 → (∃ worker ∈ pool.workers, worker.isIdle = true) → (∀ worker ∈ pool.workers, worker.package = []) →
    ∀ c call, pool.calls[c]? = some call → pool.outcome c call ≠ none

theorem Sound.runJobs_pos (h : pool.Sound) (hjobs : pool.jobs ≠ []) (hidle : ∃ worker ∈ pool.workers, worker.isIdle = true) :
    0 < pool.runJobs := by
  have hwakes := h.wakes
  have hlen := List.length_pos_iff.2 hjobs
  have hcount : 0 < pool.workers.countP (·.isIdle) := List.countP_pos_iff.2 hidle
  omega

end Pool

open Pool

/-- **Every call gets the answer to its own sets**, in any order of the callbacks. -/
theorem blsPool_settles (hbls : Lawful bls) {poolSize : Nat} {steps : List (Pool bls × Label bls)} {pool : Pool bls}
    (hrun : Run next (start poolSize) steps pool) : Settles steps pool := by
  have h := run_sound hrun
  have hexplained := run_explained hrun
  refine ⟨fun c call hcall isValid => ?_, fun c call hcall => ?_, fun key hkey => h.count_eq_one hkey, hexplained, h.runJobs_pos,
    fun hruns hidle hpackages c call hcall => ?_⟩
  · constructor
    · intro houtcome
      rcases h.call_cases c call with hrejected | hfinished | ⟨hnone, -⟩
      · obtain ⟨error, herror⟩ := outcome_rejected h hrejected
        rw [herror] at houtcome
        cases houtcome
      · obtain ⟨isValid', houtcome', hverifies⟩ := finished_results hbls h hexplained hcall hfinished
        rw [houtcome'] at houtcome
        cases houtcome
        exact ⟨hfinished, hverifies⟩
      · rw [hnone] at houtcome
        cases houtcome
    · rintro ⟨hfinished, hverifies⟩
      obtain ⟨isValid', houtcome, hverifies'⟩ := finished_results hbls h hexplained hcall hfinished
      rw [houtcome, Bool.eq_iff_iff.2 (hverifies'.trans hverifies.symm)]
  · rw [or_comm, ← h.thrown_iff (List.mem_of_getElem? hcall)]
    constructor
    · rintro ⟨error, herror⟩
      rcases h.call_cases c call with hrejected | hfinished | ⟨hnone, -⟩
      · exact hrejected
      · obtain ⟨isValid, houtcome, -⟩ := finished_results hbls h hexplained hcall hfinished
        rw [houtcome] at herror
        cases herror
      · rw [hnone] at herror
        cases herror
    · exact outcome_rejected h
  · have hjobs : pool.jobs = [] := by
      by_contra hjobs
      have hpos := h.runJobs_pos hjobs hidle
      omega
    have houtstanding : pool.outstanding = [] := by
      unfold outstanding
      rw [hjobs, List.nil_append, List.flatMap_eq_nil_iff]
      exact hpackages
    rcases h.call_cases c call with hrejected | hfinished | ⟨-, i, hi, hpending⟩
    · obtain ⟨error, herror⟩ := outcome_rejected h hrejected
      rw [herror]
      exact Option.some_ne_none _
    · obtain ⟨isValid, houtcome, -⟩ := finished_results hbls h hexplained hcall hfinished
      rw [houtcome]
      exact Option.some_ne_none _
    · have hcount := h.count_eq_one (mem_keys.2 ⟨call, hcall, hi⟩)
      rw [houtstanding, List.map_nil, List.count_nil, Nat.zero_add] at hcount
      obtain ⟨entry, hentry, hkey⟩ := List.mem_map.1 (List.count_pos_iff.1 (by omega : 0 < (pool.settled.map (·.1)).count (c, i)))
      have hsettled : pool.settlement (c, i) = some entry.2 := h.settlement_eq.2 (hkey ▸ hentry)
      rw [hpending] at hsettled
      cases hsettled

def plainBls : Library where
  PublicKey := List UInt8
  Signature := List UInt8
  aggregate publicKeys := if publicKeys.isEmpty then .error "EMPTY_AGGREGATE_ARRAY" else .ok publicKeys.flatten
  toBytes publicKey := publicKey
  publicKeyFromBytes bytes := .ok bytes
  signatureFromBytes bytes _ := if bytes.isEmpty then .error "BLST_INVALID_SIZE" else .ok bytes
  verify signature publicKey message := signature = publicKey ++ message
  verifyMultipleSignatures sets := sets.all fun set => set.2.2 = set.1 ++ set.2.1

def packed : List (Label plainBls) :=
  [.spawned 0 none, .verify [.single [1] [7] [1, 7]] true, .verify [.single [1] [7] [1, 7], .single [2] [7] [1, 7]] true,
    .verify [.single [3] [7] []] true, .runJob, .reply 0 none]

theorem blsPool_settles_packed :
    let run := exec next packed (start 1)
    (run.2.settled.map (·.1) = [(0, 0), (1, 0), (2, 0)] ∧
      run.2.calls.zipIdx.map (fun entry => run.2.outcome entry.2 entry.1) =
        [some (.ok true), some (.ok false), some (.error "BLST_INVALID_SIZE")]) ∧ Settles run.1 run.2 := by
  refine ⟨⟨by rfl, by rfl⟩, ?_⟩
  exact blsPool_settles ⟨fun _ => rfl, fun _ => rfl⟩ (exec_run next packed (start 1))

end Lodestar.Bls
