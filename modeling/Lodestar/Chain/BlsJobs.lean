import Lodestar.Lib.OrderedMap
import Lodestar.Lib.Runs
import Lodestar.Chain.BlsWorkRequests
import Mathlib.Data.List.Perm.Basic
/-!
# BlsJobs — every job of the pool is at one place

Each job that was queued is in the queue, with one worker, or settled.  The timers that have not fired are as many as the
queued jobs or the idle workers, whichever are fewer, so no wake-up is lost.
-/
namespace Lodestar.Bls

open Lib Runs

variable {bls : Library}

namespace Pool

def outstanding (pool : Pool bls) : List JobQueueItem := pool.jobs ++ pool.workers.flatMap (·.package)

def keys (pool : Pool bls) : List (Nat × Nat) :=
  pool.calls.zipIdx.flatMap fun entry => (List.range entry.1.requests.length).map fun i => (entry.2, i)

/-- Every job is at one place, has the request of its call's chunk, and the wake-ups are enough. -/
structure Sound (pool : Pool bls) : Prop where
  once : (pool.outstanding.map (·.key) ++ pool.settled.map (·.1)).Perm pool.keys
  own : ∀ job ∈ pool.outstanding, ∃ call, pool.calls[job.call]? = some call ∧ call.requests[job.chunk]? = some job.workReq
  built : ∀ call ∈ pool.calls, call.sets ≠ [] ∧ workRequests call.validateSignature
    (chunkifyMaximizeChunkSize call.sets MAX_SIGNATURE_SETS_PER_JOB) = (call.requests, call.thrown)
  wakes : min pool.jobs.length (pool.workers.countP (·.isIdle)) ≤ pool.runJobs

/-! ## Keys -/

variable {pool pool' pool'' queued : Pool bls} {c i : Nat}

theorem mem_keys :
    (c, i) ∈ pool.keys ↔ ∃ call, pool.calls[c]? = some call ∧ i < call.requests.length := by
  unfold keys
  simp only [List.mem_flatMap, List.mem_map, List.mem_range, Prod.mk.injEq, Prod.exists]
  constructor
  · rintro ⟨call, c', hmem, i', hi, rfl, rfl⟩
    exact ⟨call, List.mem_zipIdx_iff_getElem?.1 hmem, hi⟩
  · rintro ⟨call, hcall, hi⟩
    exact ⟨call, c, List.mem_zipIdx_iff_getElem?.2 hcall, i, hi, rfl, rfl⟩

theorem keys_nodup (pool : Pool bls) : pool.keys.Nodup := by
  unfold keys
  rw [List.nodup_flatMap]
  refine ⟨fun entry _ => ?_, ?_⟩
  · exact List.nodup_range.map fun i j h => by simpa using h
  · have hpairwise : (pool.calls.zipIdx.map (·.2)).Nodup := by
      rw [List.zipIdx_map_snd]
      exact List.nodup_range'
    refine (List.pairwise_map.1 hpairwise).imp fun hne => ?_
    intro key h h'
    obtain ⟨i, -, rfl⟩ := List.mem_map.1 h
    obtain ⟨j, -, hj⟩ := List.mem_map.1 h'
    exact hne (congrArg Prod.fst hj).symm

variable {key : Nat × Nat}

theorem Sound.settlement_eq (h : pool.Sound) {result : Except String Bool} :
    pool.settlement key = some result ↔ (key, result) ∈ pool.settled := find?_key_eq_some_iff (List.nodup_append.1 (h.once.nodup_iff.2 pool.keys_nodup)).2.1

theorem Sound.count_eq_one (h : pool.Sound) (hkey : key ∈ pool.keys) :
    (pool.outstanding.map (·.key)).count key + (pool.settled.map (·.1)).count key = 1 := by
  rw [← List.count_append, h.once.count_eq]
  exact List.count_eq_one_of_mem pool.keys_nodup hkey

/-! ## Queueing -/

/-- What queueing some jobs leaves of the pool: they are in the queue with a timer each, or all are rejected. -/
structure Queued (pool : Pool bls) (jobs : List JobQueueItem) (pool' : Pool bls) : Prop where
  workers : pool'.workers = pool.workers
  calls : pool'.calls = pool.calls
  added : (pool.initializationError = none ∧ pool'.jobs = pool.jobs ++ jobs ∧ pool'.settled = pool.settled ∧
      pool'.runJobs = pool.runJobs + jobs.length) ∨
    ∃ error, pool.initializationError = some error ∧ pool'.jobs = pool.jobs ∧
      pool'.settled = pool.settled ++ jobs.map (fun job => (job.key, .error error)) ∧ pool'.runJobs = pool.runJobs

theorem queueBlsWork_queued (job : JobQueueItem) (pool : Pool bls) : Queued pool [job] (queueBlsWork job pool) := by
  unfold queueBlsWork
  split
  · rename_i error herror
    exact ⟨rfl, rfl, .inr ⟨error, herror, rfl, rfl, rfl⟩⟩
  · rename_i hnone
    exact ⟨rfl, rfl, .inl ⟨hnone, rfl, rfl, rfl⟩⟩

variable {pool pool' : Pool bls}

variable {jobs jobs' : List JobQueueItem}

theorem Queued.trans (h : Queued pool jobs pool') (h' : Queued pool' jobs' pool'') : Queued pool (jobs ++ jobs') pool'' := by
  have hsame : pool'.initializationError = pool.initializationError := by rw [initializationError, h.workers, initializationError]
  refine ⟨h'.workers.trans h.workers, h'.calls.trans h.calls, ?_⟩
  rcases h.added with ⟨hnone, hjobs, hsettled, hruns⟩ | ⟨error, herror, hjobs, hsettled, hruns⟩
  · rcases h'.added with ⟨-, hjobs', hsettled', hruns'⟩ | ⟨error, herror, -⟩
    · refine .inl ⟨hnone, ?_, hsettled'.trans hsettled, ?_⟩
      · rw [hjobs', hjobs, List.append_assoc]
      · rw [hruns', hruns, List.length_append, Nat.add_assoc]
    · rw [hsame, hnone] at herror
      cases herror
  · rcases h'.added with ⟨hnone, -⟩ | ⟨error', herror', hjobs', hsettled', hruns'⟩
    · rw [hsame, herror] at hnone
      cases hnone
    · rw [hsame, herror] at herror'
      cases herror'
      refine .inr ⟨error, herror, hjobs'.trans hjobs, ?_, hruns'.trans hruns⟩
      rw [hsettled', hsettled, List.map_append, List.append_assoc]

theorem queueBlsWork_all : ∀ (jobs : List JobQueueItem) (pool : Pool bls),
    Queued pool jobs (jobs.foldl (fun pool job => queueBlsWork job pool) pool)
  | [], pool => by
    refine ⟨rfl, rfl, ?_⟩
    cases herror : pool.initializationError with
    | none => exact .inl ⟨rfl, by simp, rfl, rfl⟩
    | some error => exact .inr ⟨error, rfl, rfl, by simp, rfl⟩
  | job :: jobs, pool => (queueBlsWork_queued job pool).trans (queueBlsWork_all jobs _)

/-! ## Work packages -/

theorem prepareWork_append : ∀ (totalSigs : Nat) (jobs : List JobQueueItem),
    (prepareWork totalSigs jobs).1 ++ (prepareWork totalSigs jobs).2 = jobs
  | _, [] => rfl
  | totalSigs, job :: jobs => by
    unfold prepareWork
    split
    · exact congrArg (job :: ·) (prepareWork_append _ jobs)
    · rfl

theorem prepareWork_eq_nil (h : (prepareWork 0 jobs).1.length = 0) : jobs = [] := by
  cases jobs with
  | nil => rfl
  | cons job jobs =>
    cases h

theorem unwrapResults_map (f : JobQueueItem → Except String Bool) : ∀ (before rest : List JobQueueItem) (pool : Pool bls),
    unwrapResults (before ++ rest) before.length (rest.map f) pool =
      ({ pool with settled := pool.settled ++ rest.map fun job => (job.key, f job) }, none)
  | before, [], pool => by simp [unwrapResults]
  | before, job :: rest, pool => by
    rw [List.map_cons, unwrapResults, List.getElem?_append_right (Nat.le_refl _), Nat.sub_self]
    have ih := unwrapResults_map f (before ++ [job]) rest (pool.settle job (f job))
    rw [List.append_assoc, List.length_append] at ih
    refine ih.trans ?_
    simp [settle]

theorem rejectAll_eq (jobs : List JobQueueItem) (error : String) (pool : Pool bls) : pool.rejectAll jobs error =
    { pool with settled := pool.settled ++ jobs.map fun job => (job.key, .error error) } := by
  unfold rejectAll
  induction jobs generalizing pool with
  | nil => simp
  | cons job jobs ih =>
    rw [List.foldl_cons, ih]
    simp [settle]

def replied (bls : Library) (failure : Option String) (job : JobQueueItem) : Except String Bool :=
  match failure with
  | none => doBlsWorkReq bls job.workReq
  | some error => .error error

def replyOf (bls : Library) (jobs : List JobQueueItem) : Option String → Except String (List WorkResult)
  | none => .ok (doManyBlsWorkReq bls (jobs.map (·.workReq)))
  | some error => .error error

theorem onReply_eq (worker : Nat) (jobs : List JobQueueItem) (failure : Option String) (pool : Pool bls) :
    pool.onReply worker jobs (replyOf bls jobs failure) = { pool with
      settled := pool.settled ++ jobs.map fun job => (job.key, replied bls failure job)
      workers := pool.workers.set worker .idle
      runJobs := pool.runJobs + 1 } := by
  cases failure with
  | none =>
    have hunwrap := unwrapResults_map (fun job => doBlsWorkReq bls job.workReq) [] jobs pool
    unfold onReply replyOf doManyBlsWorkReq
    dsimp only
    rw [List.map_map, show unwrapResults jobs 0 (jobs.map (doBlsWorkReq bls ∘ (·.workReq))) pool = _ from hunwrap]
    rfl
  | some error =>
    unfold onReply replyOf
    dsimp only
    rw [rejectAll_eq]
    rfl

/-! ## What one callback does -/

def newJobs (pool : Pool bls) (requests : List BlsWorkReq) : List JobQueueItem :=
  requests.zipIdx.map fun entry => { call := pool.calls.length, chunk := entry.2, workReq := entry.1 }

inductive Turn (pool : Pool bls) : Label bls → Pool bls → Prop
  | verify (sets : List (SignatureSet bls)) (validateSignature : Bool) (requests : List BlsWorkReq) (thrown : Option String)
      (queued : Pool bls) (hsets : sets ≠ [])
      (hbuilt : workRequests validateSignature (chunkifyMaximizeChunkSize sets MAX_SIGNATURE_SETS_PER_JOB) = (requests, thrown))
      (hqueued : Queued pool (newJobs pool requests) queued) :
      Turn pool (.verify sets validateSignature)
        { queued with calls := queued.calls ++ [{ sets, validateSignature, requests, thrown }] }
  | spawned (worker : Nat) (h : pool.workers[worker]? = some .initializing) : Turn pool (.spawned worker none)
      { pool with workers := pool.workers.set worker .idle, runJobs := pool.runJobs + 1 }
  | failed (worker : Nat) (error : String) (h : pool.workers[worker]? = some .initializing) :
      Turn pool (.spawned worker (some error)) { pool with workers := pool.workers.set worker (.initializationError error) }
  | spent (hruns : pool.runJobs ≠ 0) (h : pool.jobs = [] ∨ ∀ worker ∈ pool.workers, worker.isIdle = false) :
      Turn pool .runJob { pool with runJobs := pool.runJobs - 1 }
  | sent (worker : Nat) (jobs rest : List JobQueueItem) (hruns : pool.runJobs ≠ 0) (h : pool.workers[worker]? = some .idle)
      (hjobs : pool.jobs = jobs ++ rest) (hne : jobs ≠ []) : Turn pool .runJob
        { pool with workers := pool.workers.set worker (.running jobs), jobs := rest, runJobs := pool.runJobs - 1 }
  | reply (worker : Nat) (jobs : List JobQueueItem) (failure : Option String)
      (h : pool.workers[worker]? = some (.running jobs)) : Turn pool (.reply worker failure) { pool with
        settled := pool.settled ++ jobs.map fun job => (job.key, replied bls failure job)
        workers := pool.workers.set worker .idle
        runJobs := pool.runJobs + 1 }

variable {status : WorkerStatus}

theorem isIdle_iff : status.isIdle = true ↔ status = .idle := by
  cases status <;> simp [WorkerStatus.isIdle]

theorem runJob_turn (hruns : pool.runJobs ≠ 0) :
    Turn pool .runJob { pool.runJob with runJobs := pool.runJobs - 1 } := by
  unfold runJob
  split
  · rename_i hnone
    exact .spent hruns (.inr fun worker hworker => by simpa using List.findIdx?_eq_none_iff.1 hnone worker hworker)
  · rename_i worker hworker
    dsimp only
    split
    · rename_i hempty
      exact .spent hruns (.inl (prepareWork_eq_nil hempty))
    · rename_i hempty
      obtain ⟨hlt, hidle, -⟩ := List.findIdx?_eq_some_iff_getElem.1 hworker
      refine .sent worker _ _ hruns ?_ (prepareWork_append 0 pool.jobs).symm (fun h => hempty (by rw [h]; rfl))
      rw [List.getElem?_eq_getElem hlt, isIdle_iff.1 hidle]

variable {label : Label bls}

theorem next_turn (h : next label pool = some pool') : Turn pool label pool' := by
  cases label with
  | verify sets validateSignature =>
    dsimp only [next] at h
    split at h
    · cases h
    · rename_i hsets
      cases h
      unfold verifySignatureSets
      cases hbuilt : workRequests validateSignature (chunkifyMaximizeChunkSize sets MAX_SIGNATURE_SETS_PER_JOB) with
      | mk requests thrown =>
        exact .verify sets validateSignature requests thrown _ (by simpa using hsets) hbuilt (queueBlsWork_all _ pool)
  | spawned worker failure =>
    dsimp only [next] at h
    split at h
    · rename_i hworker
      cases h
      exact .spawned worker hworker
    · rename_i error hworker
      cases h
      exact .failed worker error hworker
    · cases h
  | runJob =>
    dsimp only [next] at h
    split at h
    · cases h
    · rename_i hruns
      cases h
      exact runJob_turn hruns
  | reply worker failure =>
    dsimp only [next] at h
    split at h
    · rename_i jobs hworker
      cases h
      rw [show Except.ok (doManyBlsWorkReq bls (jobs.map (·.workReq))) = replyOf bls jobs none from rfl, onReply_eq]
      exact .reply worker jobs none hworker
    · rename_i jobs error hworker
      cases h
      rw [show Except.error error = replyOf bls jobs (some error) from rfl, onReply_eq]
      exact .reply worker jobs (some error) hworker
    · cases h

/-! ## Soundness is kept -/

theorem set_split {α : Type} {l : List α} {a : α} (h : l[i]? = some a) :
    ∃ pre post, l = pre ++ a :: post ∧ ∀ b, l.set i b = pre ++ b :: post := by
  obtain ⟨hlt, rfl⟩ := List.getElem?_eq_some_iff.1 h
  refine ⟨l.take i, l.drop (i + 1), ?_, fun b => List.set_eq_take_append_cons_drop.trans (if_pos hlt)⟩
  rw [← List.drop_eq_getElem_cons hlt, List.take_append_drop]

theorem newJobs_keys (pool : Pool bls) (requests : List BlsWorkReq) :
    (newJobs pool requests).map (·.key) = (List.range requests.length).map fun i => (pool.calls.length, i) := by
  rw [List.range_eq_range', ← List.zipIdx_map_snd, newJobs, List.map_map, List.map_map]
  rfl

variable {call : Call bls}

theorem keys_append (h : pool'.calls = pool.calls ++ [call]) :
    pool'.keys = pool.keys ++ (List.range call.requests.length).map fun i => (pool.calls.length, i) := by
  unfold keys
  rw [h, List.zipIdx_append, List.flatMap_append]
  simp

theorem keys_congr (h : pool'.calls = pool.calls) : pool'.keys = pool.keys := by
  unfold keys
  rw [h]

variable {workers : List WorkerStatus} {worker : Nat} {status status' : WorkerStatus}

section

variable (h : workers[worker]? = some status)
include h

theorem mem_outstanding_set {job : JobQueueItem} (hmem : job ∈ (workers.set worker status').flatMap (·.package)) :
    job ∈ workers.flatMap (·.package) ∨ job ∈ status'.package := by
  obtain ⟨pre, post, hworkers, hset⟩ := set_split h
  rw [hset, List.flatMap_append, List.flatMap_cons, List.mem_append, List.mem_append] at hmem
  rw [hworkers, List.flatMap_append, List.flatMap_cons, List.mem_append, List.mem_append]
  tauto

theorem package_set (hpackage : status.package = status'.package) :
    (workers.set worker status').flatMap (·.package) = workers.flatMap (·.package) := by
  obtain ⟨pre, post, hworkers, hset⟩ := set_split h
  rw [hset, hworkers, List.flatMap_append, List.flatMap_append, List.flatMap_cons, List.flatMap_cons, hpackage]

theorem idle_set (status' : WorkerStatus) : (workers.set worker status').countP (·.isIdle) + status.isIdle.toNat =
      workers.countP (·.isIdle) + status'.isIdle.toNat := by
  obtain ⟨pre, post, hworkers, hset⟩ := set_split h
  rw [hset, hworkers, List.countP_append, List.countP_append, List.countP_cons, List.countP_cons]
  cases status.isIdle <;> cases status'.isIdle <;> simp <;> omega

end

theorem getElem?_calls {calls more : List (Call bls)} (h : calls[c]? = some call) :
    (calls ++ more)[c]? = some call := by
  rw [List.getElem?_append_left (List.getElem?_eq_some_iff.1 h).1, h]

theorem Sound.verified (h : pool.Sound) {sets : List (SignatureSet bls)} {validateSignature : Bool} {requests : List BlsWorkReq}
    {thrown : Option String} (hsets : sets ≠ [])
    (hbuilt : workRequests validateSignature (chunkifyMaximizeChunkSize sets MAX_SIGNATURE_SETS_PER_JOB) = (requests, thrown))
    (hqueued : Queued pool (newJobs pool requests) queued) :
    Sound { queued with calls := queued.calls ++ [{ sets, validateSignature, requests, thrown }] } := by
  have hcalls := hqueued.calls
  have hkeys := @keys_append bls pool { queued with calls := queued.calls ++ [⟨sets, validateSignature, requests, thrown⟩] }
    ⟨sets, validateSignature, requests, thrown⟩ (by rw [hcalls])
  refine ⟨?_, fun job hjob => ?_, fun call hcall => ?_, ?_⟩
  · rw [hkeys, ← newJobs_keys pool requests]
    refine List.Perm.trans ?_ (h.once.append_right _)
    rw [List.perm_iff_count]
    unfold outstanding
    rw [hqueued.workers]
    rcases hqueued.added with ⟨-, hjobs, hsettled, -⟩ | ⟨error, -, hjobs, hsettled, -⟩
    · rw [hjobs, hsettled]
      simp only [List.map_append, List.count_append]
      omega
    · rw [hjobs, hsettled]
      simp only [List.map_append, List.count_append, List.map_map, Function.comp_def]
      omega
  · have hmem : job ∈ pool.outstanding ∨ job ∈ newJobs pool requests := by
      unfold outstanding at hjob ⊢
      rw [hqueued.workers] at hjob
      rcases hqueued.added with ⟨-, hjobs, -⟩ | ⟨error, -, hjobs, -⟩
      · rw [hjobs, List.mem_append, List.mem_append] at hjob
        rw [List.mem_append]
        tauto
      · rw [hjobs] at hjob
        exact .inl hjob
    rw [hcalls]
    rcases hmem with hold | hnew
    · obtain ⟨call, hcall, hown⟩ := h.own job hold
      exact ⟨call, getElem?_calls hcall, hown⟩
    · obtain ⟨entry, hentry, rfl⟩ := List.mem_map.1 hnew
      exact ⟨_, List.getElem?_concat_length, List.mem_zipIdx_iff_getElem?.1 hentry⟩
  · dsimp only at hcall
    rw [hcalls] at hcall
    rcases List.mem_append.1 hcall with hold | hnew
    · exact h.built call hold
    · rw [List.mem_singleton.1 hnew]
      exact ⟨hsets, hbuilt⟩
  · have hwakes := h.wakes
    rw [hqueued.workers]
    rcases hqueued.added with ⟨-, hjobs, -, hruns⟩ | ⟨error, -, hjobs, -, hruns⟩
    · rw [hjobs, hruns, List.length_append]
      omega
    · rw [hjobs, hruns]
      exact hwakes

theorem Sound.moved (h : pool.Sound) (hcalls : pool'.calls = pool.calls)
    (hperm : (pool'.outstanding.map (·.key) ++ pool'.settled.map (·.1)).Perm
      (pool.outstanding.map (·.key) ++ pool.settled.map (·.1)))
    (hsub : ∀ job ∈ pool'.outstanding, job ∈ pool.outstanding)
    (hwakes : min pool'.jobs.length (pool'.workers.countP (·.isIdle)) ≤ pool'.runJobs) : pool'.Sound := by
  refine ⟨?_, fun job hjob => ?_, ?_, hwakes⟩
  · rw [keys_congr hcalls]
    exact hperm.trans h.once
  · rw [hcalls]
    exact h.own job (hsub job hjob)
  · rw [hcalls]
    exact h.built

theorem Turn.sound (hturn : Turn pool label pool') (h : pool.Sound) : pool'.Sound := by
  have hwakes := h.wakes
  cases hturn with
  | verify sets validateSignature requests thrown queued hsets hbuilt hqueued => exact h.verified hsets hbuilt hqueued
  | spawned worker hworker =>
    have hsame : (pool.workers.set worker .idle).flatMap (·.package) = _ := package_set hworker rfl
    have hidle : (pool.workers.set worker .idle).countP (·.isIdle) + 0 = pool.workers.countP (·.isIdle) + 1 :=
      idle_set hworker .idle
    refine h.moved rfl ?_ ?_ ?_
    · unfold outstanding
      rw [hsame]
    · unfold outstanding
      rw [hsame]
      exact fun job hjob => hjob
    · dsimp only
      omega
  | failed worker error hworker =>
    have hsame : (pool.workers.set worker (.initializationError error)).flatMap (·.package) = _ := package_set hworker rfl
    have hidle : (pool.workers.set worker (.initializationError error)).countP (·.isIdle) + 0 = pool.workers.countP (·.isIdle) + 0 :=
      idle_set hworker (.initializationError error)
    refine h.moved rfl ?_ ?_ ?_
    · unfold outstanding
      rw [hsame]
    · unfold outstanding
      rw [hsame]
      exact fun job hjob => hjob
    · dsimp only
      omega
  | spent hruns hwhy =>
    refine h.moved rfl (List.Perm.refl _) (fun job hjob => hjob) ?_
    rcases hwhy with hjobs | hbusy
    · rw [hjobs]
      simp
    · rw [List.countP_eq_zero.2 fun worker hworker => by rw [hbusy worker hworker]; exact Bool.false_ne_true]
      omega
  | sent worker jobs rest hruns hworker hjobs hne =>
    obtain ⟨pre, post, hworkers, hset⟩ := set_split hworker
    refine h.moved rfl ?_ (fun job hjob => ?_) ?_
    · rw [List.perm_iff_count]
      unfold outstanding
      rw [hset, hworkers, hjobs]
      simp only [List.map_append, List.count_append, List.flatMap_append, List.flatMap_cons, WorkerStatus.package, List.nil_append]
      omega
    · unfold outstanding at hjob ⊢
      rw [hjobs, List.mem_append, List.mem_append]
      rcases List.mem_append.1 hjob with hrest | hpackage
      · exact .inl (.inr hrest)
      · rcases mem_outstanding_set hworker hpackage with hold | hnew
        · exact .inr hold
        · exact .inl (.inl hnew)
    · dsimp only
      have hpos := List.length_pos_iff.2 hne
      have hidle : (pool.workers.set worker (.running jobs)).countP (·.isIdle) + 1 = pool.workers.countP (·.isIdle) + 0 :=
        idle_set hworker (.running jobs)
      rw [hjobs, List.length_append] at hwakes
      omega
  | reply worker jobs failure hworker =>
    obtain ⟨pre, post, hworkers, hset⟩ := set_split hworker
    refine h.moved rfl ?_ (fun job hjob => ?_) ?_
    · rw [List.perm_iff_count]
      unfold outstanding
      rw [hset, hworkers]
      simp only [List.map_append, List.count_append, List.flatMap_append, List.flatMap_cons, WorkerStatus.package, List.nil_append,
        List.map_map, Function.comp_def]
      omega
    · unfold outstanding at hjob ⊢
      rcases List.mem_append.1 hjob with hqueue | hpackage
      · exact List.mem_append_left _ hqueue
      · rcases mem_outstanding_set hworker hpackage with hold | hnew
        · exact List.mem_append_right _ hold
        · cases hnew
    · dsimp only
      have hidle : (pool.workers.set worker .idle).countP (·.isIdle) + 0 = pool.workers.countP (·.isIdle) + 1 :=
        idle_set hworker .idle
      omega

theorem sound_start (poolSize : Nat) : (start poolSize : Pool bls).Sound := by
  have hpackages : (List.replicate poolSize WorkerStatus.initializing).flatMap (·.package) = [] := by
    rw [List.flatMap_eq_nil_iff]
    intro status hstatus
    rw [List.eq_of_mem_replicate hstatus]
    rfl
  refine ⟨?_, fun job hjob => ?_, fun call hcall => absurd hcall List.not_mem_nil, ?_⟩
  · unfold outstanding start
    rw [hpackages]
    exact List.Perm.refl _
  · unfold outstanding start at hjob
    rw [hpackages] at hjob
    cases hjob
  · simp [start]

end Pool

end Lodestar.Bls
