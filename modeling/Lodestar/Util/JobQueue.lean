import Mathlib.Data.List.Count
import Mathlib.Data.List.Perm.Basic
import Lodestar.Lib.Runs
/-!
# JobQueue — jobs that wait for a slot, and the promises of their callers

`push` gives a promise.  It is rejected at once, or the job waits in the queue until a call of `runJob` takes it, and is settled when
the job ends or when the queue is aborted.  The main thread runs one callback at a time, and any callback may be the next: a push, a
timer, the end of a job, the end of a sleep, the abort.

A queue that drops nothing keeps every promise: `accounted_iff`.  Without an abort it never stalls: `runs_keepRunning`.
-/
namespace Lodestar

open Runs

inductive QueueType
  | FIFO
  | LIFO
deriving DecidableEq

inductive QueueErrorCode
  | QUEUE_ABORTED
  | QUEUE_MAX_LENGTH
deriving DecidableEq

structure JobQueueOpts where
  maxLength : Nat
  maxConcurrency : Nat := 1
  yieldEveryMs : Nat := 50
  type : QueueType := .FIFO

inductive Settlement
  | resolved
  | rejected
  | aborted
deriving DecidableEq

structure JobQueue where
  aborted : Bool
  jobs : List Nat
  runningJobs : Nat
  lastYield : Nat
  /-- The `runJob` timers that have not fired. -/
  timers : Nat
  /-- The jobs that calls of `runJob` await. -/
  executing : List Nat
  /-- The calls of `runJob` that sleep after their job. -/
  yielding : Nat
  pushed : Nat
  started : List Nat
  /-- What `push` threw. -/
  rejected : List (Nat × QueueErrorCode)
  settled : List (Nat × Settlement)
deriving DecidableEq

namespace JobQueue

def init (aborted : Bool) : JobQueue :=
  { aborted := aborted, jobs := [], runningJobs := 0, lastYield := 0, timers := 0, executing := [], yielding := 0, pushed := 0
    started := [], rejected := [], settled := [] }

variable (opts : JobQueueOpts)

def enqueue (job : Nat) (q : JobQueue) : JobQueue := { q with jobs := q.jobs ++ [job], timers := q.timers + 1 }

def reject (job : Nat) (code : QueueErrorCode) (q : JobQueue) : JobQueue := { q with rejected := q.rejected ++ [(job, code)] }

def push (q : JobQueue) : JobQueue :=
  let job := q.pushed
  let q := { q with pushed := q.pushed + 1 }
  if q.aborted then q.reject job .QUEUE_ABORTED
  else if opts.maxLength < q.jobs.length + 1 then
    match opts.type with
    -- In LIFO queues keep the latest job and drop the oldest
    | .LIFO => enqueue job { q with jobs := q.jobs.tail }
    -- In FIFO queues drop the latest job
    | .FIFO => q.reject job .QUEUE_MAX_LENGTH
  else q.enqueue job

/-- LIFO takes the last item, FIFO the first. -/
def takeJob : QueueType → List Nat → Option (Nat × List Nat)
  | .FIFO, [] => none
  | .FIFO, job :: jobs => some (job, jobs)
  | .LIFO, jobs => jobs.getLast?.map fun job => (job, jobs.dropLast)

def runJob (q : JobQueue) : JobQueue :=
  if q.aborted ∨ opts.maxConcurrency ≤ q.runningJobs then q
  else match takeJob opts.type q.jobs with
    | none => q
    | some (job, jobs) =>
      { q with jobs := jobs, runningJobs := q.runningJobs + 1, executing := q.executing ++ [job], started := q.started ++ [job] }

/-- The end of `runJob`, which potentially runs a new job. -/
def release (q : JobQueue) : JobQueue := runJob opts { q with runningJobs := q.runningJobs - 1 }

/-- A job ends at a time, and settles its promise; after a result the call may sleep first. -/
def finishJob (job : Nat) (succeeded : Bool) (now : Nat) (q : JobQueue) : JobQueue :=
  let q := { q with
    executing := q.executing.erase job
    settled := q.settled ++ [(job, if succeeded then .resolved else .rejected)] }
  if succeeded ∧ opts.yieldEveryMs < now - q.lastYield then { q with lastYield := now, yielding := q.yielding + 1 }
  else release opts q

def abortAllJobs (q : JobQueue) : JobQueue :=
  { q with jobs := [], settled := q.settled ++ q.jobs.reverse.map fun job => (job, .aborted) }

inductive Event
  | push
  | timer
  | finish (job : Nat) (succeeded : Bool) (now : Nat)
  | wake
  | abort
deriving DecidableEq

def next : Event → JobQueue → Option JobQueue
  | .push, q => some (push opts q)
  | .timer, q => if 0 < q.timers then some (runJob opts { q with timers := q.timers - 1 }) else none
  | .finish job succeeded now, q => if job ∈ q.executing then some (finishJob opts job succeeded now q) else none
  | .wake, q => if 0 < q.yielding then some (release opts { q with yielding := q.yielding - 1 }) else none
  -- the signal is aborted once
  | .abort, q => if q.aborted then none else some (abortAllJobs { q with aborted := true })

variable {opts} {q q' : JobQueue} {event : Event}

theorem push_cases (opts : JobQueueOpts) (q : JobQueue) :
    (q.aborted = true ∧ push opts q = reject q.pushed .QUEUE_ABORTED { q with pushed := q.pushed + 1 }) ∨
    (q.aborted = false ∧ q.jobs.length + 1 ≤ opts.maxLength ∧ push opts q = enqueue q.pushed { q with pushed := q.pushed + 1 }) ∨
    (q.aborted = false ∧ opts.maxLength < q.jobs.length + 1 ∧ opts.type = .LIFO ∧
      push opts q = enqueue q.pushed { q with pushed := q.pushed + 1, jobs := q.jobs.tail }) ∨
    (q.aborted = false ∧ opts.maxLength < q.jobs.length + 1 ∧ opts.type = .FIFO ∧
      push opts q = reject q.pushed .QUEUE_MAX_LENGTH { q with pushed := q.pushed + 1 }) := by
  unfold push
  by_cases haborted : q.aborted = true
  · rw [if_pos haborted]
    exact .inl ⟨haborted, rfl⟩
  · have hrunning : q.aborted = false := by simpa using haborted
    rw [if_neg haborted]
    by_cases hfull : opts.maxLength < q.jobs.length + 1
    · rw [if_pos hfull]
      cases htype : opts.type with
      | LIFO => exact .inr (.inr (.inl ⟨hrunning, hfull, rfl, rfl⟩))
      | FIFO => exact .inr (.inr (.inr ⟨hrunning, hfull, rfl, rfl⟩))
    · rw [if_neg hfull]
      exact .inr (.inl ⟨hrunning, Nat.le_of_not_lt hfull, rfl⟩)

theorem next_cases (h : next opts event q = some q') : (event = .push ∧ q' = push opts q) ∨
    (event = .timer ∧ 0 < q.timers ∧ q' = runJob opts { q with timers := q.timers - 1 }) ∨
    (∃ job succeeded now, event = .finish job succeeded now ∧ job ∈ q.executing ∧ q' = finishJob opts job succeeded now q) ∨
    (event = .wake ∧ 0 < q.yielding ∧ q' = release opts { q with yielding := q.yielding - 1 }) ∨
    (event = .abort ∧ q.aborted = false ∧ q' = abortAllJobs { q with aborted := true }) := by
  cases event with
  | push => exact .inl ⟨rfl, (Option.some.inj h).symm⟩
  | timer =>
    by_cases hset : 0 < q.timers
    · rw [next, if_pos hset] at h
      exact .inr (.inl ⟨rfl, hset, (Option.some.inj h).symm⟩)
    · rw [next, if_neg hset] at h
      cases h
  | finish job succeeded now =>
    by_cases hjob : job ∈ q.executing
    · rw [next, if_pos hjob] at h
      exact .inr (.inr (.inl ⟨job, succeeded, now, rfl, hjob, (Option.some.inj h).symm⟩))
    · rw [next, if_neg hjob] at h
      cases h
  | wake =>
    by_cases hsleeps : 0 < q.yielding
    · rw [next, if_pos hsleeps] at h
      exact .inr (.inr (.inr (.inl ⟨rfl, hsleeps, (Option.some.inj h).symm⟩)))
    · rw [next, if_neg hsleeps] at h
      cases h
  | abort =>
    by_cases haborted : q.aborted = true
    · rw [next, if_pos haborted] at h
      cases h
    · rw [next, if_neg haborted] at h
      exact .inr (.inr (.inr (.inr ⟨rfl, by simpa using haborted, (Option.some.inj h).symm⟩)))

/-! ## Where a job is -/

def places (q : JobQueue) : List Nat := q.rejected.map Prod.fst ++ (q.jobs ++ (q.executing ++ q.settled.map Prod.fst))

/-- Every job ever pushed is in exactly one place. -/
def Accounted (q : JobQueue) : Prop := q.places.Perm (List.range q.pushed)

variable {type : QueueType} {jobs rest : List Nat} {job : Nat}

theorem takeJob_perm (h : takeJob type jobs = some (job, rest)) :
    jobs.Perm (job :: rest) := by
  cases type with
  | FIFO =>
    cases jobs with
    | nil => cases h
    | cons first jobs =>
      cases h
      exact List.Perm.refl _
  | LIFO =>
    obtain ⟨last, hlast, heq⟩ := Option.map_eq_some_iff.1 h
    cases heq
    have hjobs : jobs.dropLast ++ [job] = jobs := List.dropLast_append_getLast? job hlast
    exact (List.Perm.of_eq hjobs.symm).trans (List.perm_append_singleton _ _)

theorem runJob_cases (opts : JobQueueOpts) (q : JobQueue) :
    (runJob opts q = q ∧ (q.aborted = true ∨ opts.maxConcurrency ≤ q.runningJobs ∨ q.jobs = [])) ∨
    ∃ job jobs, q.aborted = false ∧ q.runningJobs < opts.maxConcurrency ∧ takeJob opts.type q.jobs = some (job, jobs) ∧
      runJob opts q = { q with
        jobs := jobs, runningJobs := q.runningJobs + 1, executing := q.executing ++ [job], started := q.started ++ [job] } := by
  unfold runJob
  by_cases hstop : q.aborted ∨ opts.maxConcurrency ≤ q.runningJobs
  · rw [if_pos hstop]
    exact .inl ⟨rfl, hstop.imp_right .inl⟩
  · rw [if_neg hstop]
    obtain ⟨haborted, hfree⟩ := not_or.1 hstop
    cases htake : takeJob opts.type q.jobs with
    | none =>
      refine .inl ⟨rfl, .inr (.inr ?_)⟩
      unfold takeJob at htake
      split at htake
      · assumption
      · cases htake
      · simpa using htake
    | some taken =>
      obtain ⟨job, jobs⟩ := taken
      exact .inr ⟨job, jobs, by simpa using haborted, Nat.lt_of_not_le hfree, rfl, rfl⟩

theorem runJob_places (opts : JobQueueOpts) (q : JobQueue) :
    (runJob opts q).places.Perm q.places ∧ (runJob opts q).pushed = q.pushed := by
  rcases runJob_cases opts q with ⟨h, -⟩ | ⟨job, jobs, -, -, htake, h⟩
  · rw [h]
    exact ⟨List.Perm.refl _, rfl⟩
  · rw [h]
    refine ⟨?_, rfl⟩
    have hjobs := (List.perm_iff_count.1 (takeJob_perm htake))
    apply List.perm_iff_count.2
    intro a
    have := hjobs a
    simp [places, List.count_cons] at this ⊢
    omega

theorem Accounted.of_perm (h : q.Accounted) (hperm : q'.places.Perm q.places) (hpushed : q'.pushed = q.pushed) : q'.Accounted := by
  unfold Accounted
  rw [hpushed]
  exact hperm.trans h

theorem Accounted.runJob (h : q.Accounted) : (runJob opts q).Accounted :=
  h.of_perm (runJob_places opts q).1 (runJob_places opts q).2

theorem Accounted.add (h : q.Accounted) (hperm : q'.places.Perm (q.pushed :: q.places)) (hpushed : q'.pushed = q.pushed + 1) :
    q'.Accounted := by
  unfold Accounted
  rw [hpushed, List.range_succ]
  exact hperm.trans ((List.Perm.cons _ h).trans (List.perm_append_singleton _ _).symm)

theorem Accounted.finishJob {succeeded : Bool} {now : Nat} (h : q.Accounted) (hjob : job ∈ q.executing) :
    (finishJob opts job succeeded now q).Accounted := by
  have hpos := List.count_pos_iff.2 hjob
  have hmoved : ({ q with
      executing := q.executing.erase job
      settled := q.settled ++ [(job, if succeeded then .resolved else .rejected)] } : JobQueue).Accounted := by
    refine h.of_perm (List.perm_iff_count.2 fun a => ?_) rfl
    by_cases ha : a = job
    · subst ha
      simp [places]
      omega
    · have hne : ¬ job = a := fun heq => ha heq.symm
      simp [places, hne, List.count_erase_of_ne ha]
  unfold JobQueue.finishJob
  dsimp only
  split
  · exact hmoved.of_perm (List.Perm.refl _) rfl
  · exact Accounted.runJob (hmoved.of_perm (List.Perm.refl _) rfl)

theorem Accounted.abortAllJobs (h : q.Accounted) : (abortAllJobs { q with aborted := true }).Accounted := by
  refine h.of_perm (List.perm_iff_count.2 fun a => ?_) rfl
  simp [places, JobQueue.abortAllJobs, Function.comp_def]
  omega

def DropsNone (opts : JobQueueOpts) (q : JobQueue) (event : Event) : Prop :=
  event = .push → opts.type = .LIFO → q.aborted = false → q.jobs ≠ [] → q.jobs.length + 1 ≤ opts.maxLength

theorem Accounted.push_iff (h : q.Accounted) : (push opts q).Accounted ↔ DropsNone opts q .push := by
  have henqueue : ∀ q₁ : JobQueue, q₁.pushed = q.pushed + 1 → q₁.places.Perm q.places → (enqueue q.pushed q₁).Accounted := by
    intro q₁ hpushed hperm
    refine h.add (List.perm_iff_count.2 fun a => ?_) hpushed
    have := List.perm_iff_count.1 hperm a
    simp [places, enqueue, List.count_cons] at this ⊢
    omega
  have hreject : ∀ code, (reject q.pushed code { q with pushed := q.pushed + 1 }).Accounted := by
    intro code
    refine h.add (List.perm_iff_count.2 fun a => ?_) rfl
    simp [places, reject, List.count_cons]
    omega
  unfold DropsNone
  rcases push_cases opts q with ⟨haborted, heq⟩ | ⟨-, hroom, heq⟩ | ⟨hrunning, hfull, htype, heq⟩ | ⟨-, -, htype, heq⟩
  · rw [heq]
    exact ⟨fun _ _ _ hrunning => absurd haborted (by simp [hrunning]), fun _ => hreject _⟩
  · rw [heq]
    exact ⟨fun _ _ _ _ _ => hroom, fun _ => henqueue _ rfl (List.Perm.refl _)⟩
  · rw [heq]
    cases hjobs : q.jobs with
    | nil =>
      refine ⟨fun _ _ _ _ hne => absurd rfl hne, fun _ => henqueue _ rfl ?_⟩
      simp [places, hjobs]
    | cons first rest =>
      rw [hjobs] at hfull
      constructor
      · intro hafter
        -- one job came in and one is lost, so the count is short by one
        have hlength := hafter.length_eq
        have hbefore := h.length_eq
        simp [places, enqueue, hjobs] at hlength hbefore
        omega
      · intro hroom
        have := hroom rfl htype hrunning (by simp)
        omega
  · rw [heq]
    refine ⟨fun _ _ hlifo => ?_, fun _ => hreject _⟩
    cases htype.symm.trans hlifo

theorem Accounted.next_iff (h : q.Accounted) (hnext : next opts event q = some q') : q'.Accounted ↔ DropsNone opts q event := by
  have hother : event ≠ .push → q'.Accounted → (q'.Accounted ↔ DropsNone opts q event) :=
    fun hne hafter => ⟨fun _ hpush => absurd hpush hne, fun _ => hafter⟩
  rcases next_cases hnext with ⟨rfl, rfl⟩ | ⟨rfl, -, rfl⟩ | ⟨job, succeeded, now, rfl, hjob, rfl⟩ | ⟨rfl, -, rfl⟩ | ⟨rfl, -, rfl⟩
  · exact h.push_iff
  · exact hother (by simp) (Accounted.runJob (h.of_perm (List.Perm.refl _) rfl))
  · exact hother (by simp) (h.finishJob hjob)
  · exact hother (by simp) (Accounted.runJob (h.of_perm (List.Perm.refl _) rfl))
  · exact hother (by simp) h.abortAllJobs

/-- **Along a run every job pushed is rejected at its push, queued, running or settled, exactly where no push to a LIFO queue drops
a job that waits.** -/
theorem accounted_iff {aborted : Bool} {steps : List (JobQueue × Event)} (hrun : Run (next opts) (init aborted) steps q) :
    (∀ x ∈ visited steps q, x.Accounted) ↔ ∀ step ∈ steps, DropsNone opts step.1 step.2 :=
  hrun.always_iff (I := fun _ => True) trivial (List.Perm.refl _) (fun _ _ _ _ _ => trivial)
    fun _ _ _ hnext _ haccounted => haccounted.next_iff hnext

/-- One push, a timer and an abort in mid-run. -/
theorem accounted_iff_abort :
    (exec (next { maxLength := 2, type := .LIFO }) [.push, .timer, .push, .abort] (init false)).2.Accounted :=
  (accounted_iff (exec_run (next { maxLength := 2, type := .LIFO }) [.push, .timer, .push, .abort] (init false))).2
    (by unfold DropsNone; decide) _ (List.mem_append_right _ (List.mem_singleton.2 rfl))

/-- The job that waits is dropped, and its promise is never settled. -/
theorem accounted_fails : ¬ ∀ (steps : List (JobQueue × Event)) (q : JobQueue),
    Run (next { maxLength := 1, type := .LIFO }) (init false) steps q → ∀ x ∈ visited steps q, x.Accounted := by
  intro h
  have hlast := h _ _ (exec_run (next { maxLength := 1, type := .LIFO }) [.push, .push] (init false)) _
    (List.mem_append_right _ (List.mem_singleton.2 rfl))
  have hlength := hlast.length_eq
  revert hlength
  decide

/-! ## Slots and wake-ups -/

def accepted (q : JobQueue) : List Nat := (List.range q.pushed).filter fun job => job ∉ q.rejected.map Prod.fst

/-- Every call that holds a slot awaits a job or sleeps; there are timers for all jobs that a free slot could take; and the jobs
taken from a FIFO queue and those in it are the accepted ones in order. -/
structure Going (opts : JobQueueOpts) (q : JobQueue) : Prop where
  running : q.aborted = false
  slots : q.runningJobs = q.executing.length + q.yielding
  concurrency : q.runningJobs ≤ opts.maxConcurrency
  timers : min (opts.maxConcurrency - q.runningJobs) q.jobs.length ≤ q.timers
  order : opts.type = .FIFO → q.started ++ q.jobs = q.accepted
  rejected : ∀ job ∈ q.rejected.map Prod.fst, job < q.pushed

theorem takeJob_length (h : takeJob type jobs = some (job, rest)) :
    jobs.length = rest.length + 1 := by
  simpa using (takeJob_perm h).length_eq

theorem Going.runJob (h : q.Going opts) (hjobs : q'.jobs = q.jobs) (hstarted : q'.started = q.started)
    (haccepted : q'.accepted = q.accepted) (hrejected : q'.rejected = q.rejected) (hpushed : q'.pushed = q.pushed)
    (haborted : q'.aborted = q.aborted) (hslots : q'.runningJobs = q'.executing.length + q'.yielding)
    (hrunning : q'.runningJobs ≤ opts.maxConcurrency)
    (htimers : min (opts.maxConcurrency - q'.runningJobs) q.jobs.length ≤ q'.timers + 1) : (runJob opts q').Going opts := by
  have horder := h.order
  have hwent := h.running
  have hknown := h.rejected
  rcases runJob_cases opts q' with ⟨heq, hstop⟩ | ⟨job, jobs, -, hfree, htake, heq⟩
  · rw [heq]
    refine ⟨haborted.trans hwent, hslots, hrunning, ?_, ?_, ?_⟩
    · rcases hstop with hstop | hfull | hempty
      · rw [haborted, hwent] at hstop
        cases hstop
      · omega
      · simp [hempty]
    · rw [hstarted, hjobs, haccepted]
      exact horder
    · rw [hrejected, hpushed]
      exact hknown
  · rw [heq]
    have hlength := takeJob_length htake
    rw [hjobs] at htake hlength
    refine ⟨haborted.trans hwent, ?_, hfree, ?_, fun hfifo => ?_, ?_⟩
    · simp [hslots]
      omega
    · dsimp only
      omega
    · rw [hfifo] at htake
      have hcons : q.jobs = job :: jobs := by
        cases hq : q.jobs with
        | nil =>
          rw [hq] at htake
          cases htake
        | cons first rest =>
          rw [hq, takeJob] at htake
          cases htake
          rfl
      have hsame := horder hfifo
      rw [hcons, ← hstarted] at hsame
      calc q'.started ++ [job] ++ jobs = q'.started ++ job :: jobs := by simp
        _ = q.accepted := hsame
        _ = q'.accepted := haccepted.symm
    · rw [hrejected, hpushed]
      exact hknown

theorem Going.push (h : q.Going opts) : (push opts q).Going opts := by
  obtain ⟨hrunning, hslots, hconcurrency, htimers, horder, hrejected⟩ := h
  have hlater : ∀ job ∈ q.rejected.map Prod.fst, job < q.pushed + 1 := fun job hmem => Nat.lt_succ_of_lt (hrejected job hmem)
  rcases push_cases opts q with ⟨haborted, -⟩ | ⟨-, -, heq⟩ | ⟨-, -, htype, heq⟩ | ⟨-, -, htype, heq⟩
  · cases haborted.symm.trans hrunning
  · rw [heq]
    refine ⟨hrunning, hslots, hconcurrency, ?_, fun hfifo => ?_, hlater⟩
    · simp [enqueue]
      omega
    · have hfresh : q.pushed ∉ q.rejected.map Prod.fst := fun hmem => absurd (hrejected _ hmem) (Nat.lt_irrefl _)
      have hmore : accepted (enqueue q.pushed { q with pushed := q.pushed + 1 }) = q.accepted ++ [q.pushed] := by
        unfold accepted enqueue
        rw [List.range_succ, List.filter_append]
        simp only [List.filter_cons, List.filter_nil, decide_eq_true hfresh, if_true]
      rw [hmore, ← horder hfifo]
      exact (List.append_assoc _ _ _).symm
  · rw [heq]
    refine ⟨hrunning, hslots, hconcurrency, ?_, fun hfifo => ?_, hlater⟩
    · simp [enqueue]
      omega
    · cases htype.symm.trans hfifo
  · rw [heq]
    have hmap : (q.rejected ++ [(q.pushed, QueueErrorCode.QUEUE_MAX_LENGTH)]).map Prod.fst =
        q.rejected.map Prod.fst ++ [q.pushed] := by
      simp
    refine ⟨hrunning, hslots, hconcurrency, htimers, fun _ => (horder htype).trans ?_, ?_⟩
    · unfold accepted reject
      rw [hmap, List.range_succ, List.filter_append]
      have hsame : (List.range q.pushed).filter (fun job => decide (job ∉ q.rejected.map Prod.fst)) =
          (List.range q.pushed).filter fun job => decide (job ∉ q.rejected.map Prod.fst ++ [q.pushed]) := by
        apply List.filter_congr
        intro job hjob
        have hne : job ≠ q.pushed := Nat.ne_of_lt (List.mem_range.1 hjob)
        simp [hne]
      rw [hsame]
      simp
    · unfold reject
      rw [hmap]
      exact List.forall_mem_append.2 ⟨hlater, List.forall_mem_singleton.2 (Nat.lt_succ_self _)⟩

theorem Going.next (h : q.Going opts) (hnext : next opts event q = some q') (hgoing : event ≠ .abort) : q'.Going opts := by
  have hslots := h.slots
  have hconcurrency := h.concurrency
  have htimers := h.timers
  rcases next_cases hnext with ⟨rfl, rfl⟩ | ⟨rfl, htimer, rfl⟩ | ⟨job, succeeded, now, rfl, hjob, rfl⟩ |
    ⟨rfl, hsleeps, rfl⟩ | ⟨rfl, -, -⟩
  · exact h.push
  · refine h.runJob rfl rfl rfl rfl rfl rfl hslots hconcurrency ?_
    dsimp only
    omega
  · have hpos := List.length_pos_of_mem hjob
    have herase := List.length_erase_of_mem hjob
    unfold finishJob
    dsimp only
    split
    · refine ⟨h.running, ?_, hconcurrency, htimers, h.order, h.rejected⟩
      dsimp only
      omega
    · refine h.runJob rfl rfl rfl rfl rfl rfl ?_ ?_ ?_
      · dsimp only
        omega
      · dsimp only
        omega
      · dsimp only
        omega
  · refine h.runJob rfl rfl rfl rfl rfl rfl ?_ ?_ ?_
    · dsimp only
      omega
    · dsimp only
      omega
    · dsimp only
      omega
  · exact absurd rfl hgoing

theorem Going.init (opts : JobQueueOpts) : (init false).Going opts where
  running := rfl
  slots := rfl
  concurrency := Nat.zero_le _
  timers := by simp [JobQueue.init]
  order _ := rfl
  rejected _ hmem := absurd hmem List.not_mem_nil

/-- **Along a run without an abort** never more jobs run than are allowed, a FIFO queue starts them in the order they were accepted,
and a queue with jobs and a free slot still has a wake-up to come: a timer, or a call that sleeps before it frees its slot. -/
theorem runs_keepRunning {steps : List (JobQueue × Event)} (hrun : Run (next opts) (init false) steps q)
    (hevents : ∀ step ∈ steps, step.2 ≠ .abort) : ∀ x ∈ visited steps q,
      x.executing.length ≤ opts.maxConcurrency ∧ x.runningJobs ≤ opts.maxConcurrency ∧
      (opts.type = .FIFO → x.started ++ x.jobs = x.accepted ∧ x.started.Pairwise (· < ·)) ∧
      (x.jobs ≠ [] → x.runningJobs < opts.maxConcurrency → 0 < x.timers) ∧
      (x.jobs ≠ [] → x.executing.length < opts.maxConcurrency → 0 < x.timers ∨ 0 < x.yielding) := by
  intro x hx
  obtain ⟨-, hslots, hconcurrency, htimers, horder, -⟩ := hrun.always (I := Going opts) (C := fun _ event => event ≠ .abort)
    (Going.init opts) (fun _ _ _ hnext hgoing hbefore => hbefore.next hnext hgoing) hevents x hx
  have hlength : x.jobs ≠ [] → 0 < x.jobs.length := List.length_pos_iff.2
  refine ⟨by omega, hconcurrency, fun hfifo => ⟨horder hfifo, ?_⟩, fun hjobs hfree => ?_, fun hjobs hfree => ?_⟩
  · have hsorted : x.accepted.Pairwise (· < ·) := List.pairwise_lt_range.filter _
    rw [← horder hfifo] at hsorted
    exact (List.pairwise_append.1 hsorted).1
  · have := hlength hjobs
    omega
  · have := hlength hjobs
    omega

/-- Three pushes onto two slots, the second job ending while the third waits. -/
theorem runs_keepRunning_threePushes :
    (exec (next { maxLength := 4, maxConcurrency := 2 }) [.push, .push, .push, .timer, .timer, .timer, .finish 1 true 60, .wake]
      (init false)).2.runningJobs ≤ 2 :=
  (runs_keepRunning (exec_run (next { maxLength := 4, maxConcurrency := 2 })
    [.push, .push, .push, .timer, .timer, .timer, .finish 1 true 60, .wake] (init false)) (by decide) _
    (List.mem_append_right _ (List.mem_singleton.2 rfl))).2.1

end JobQueue

end Lodestar
