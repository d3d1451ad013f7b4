import Mathlib.Algebra.Order.Ring.Unbundled.Rat
import Mathlib.Data.Prod.Lex
import LeadPipe.Framework.Ranking
import LeadPipe.Repositories.Jobs

/-!
# The job queue

`app/jobs/queue.py`. Each function is one committed transaction on `collection_jobs`; the clock
and the random number of the backoff are arguments.
-/

namespace LeadPipe

open Framework

structure ClaimedJob where
  id : Nat
  sourceId : Nat
  sourceName : Text
  attempts : Nat
  maxAttempts : Nat
  deriving DecidableEq

/-- `timedelta(seconds=..)` in microseconds, halves rounded to even. -/
def timedelta (seconds : ℚ) : Int :=
  let micros := seconds * 1000000
  let whole := micros.floor
  let rest := micros - whole
  if rest < 1 / 2 ∨ (rest = 1 / 2 ∧ whole % 2 = 0) then whole else whole + 1

def baseBackoffSeconds : ℚ := 5

def maxBackoffSeconds : ℚ := 300

/-- Exponential and capped, with jitter so that retries do not synchronise. -/
def backoffSeconds (attempts : Nat) (jitter : ℚ) : ℚ :=
  let delay := min (baseBackoffSeconds * 2 ^ (attempts - 1)) maxBackoffSeconds
  delay * (1 / 2 + 1 / 2 * jitter)

/-- `error[:2000]` -/
def errorLimit : Nat := 2000

def stoppedResponding : Text := "worker stopped responding".toList

namespace CollectionJob

/-- `heartbeat_at IS NULL OR heartbeat_at < cutoff` -/
def silent (job : CollectionJob) (cutoff : Instant) : Bool :=
  job.heartbeatAt.all fun t => t < cutoff

def running (job : CollectionJob) : Bool := job.status = .running

def exhausted (job : CollectionJob) : Bool := job.maxAttempts ≤ job.attempts

/-- Pending, due, and not locked by another transaction. -/
def runnable (now : Instant) (locked : List Nat) (job : CollectionJob) : Bool :=
  job.status = .pending && job.runAfter.all (fun t => t ≤ now) && !locked.contains job.id

theorem running_iff {j : CollectionJob} : j.running = true ↔ j.status = .running := by
  simp [running]

theorem pending_of_runnable {j : CollectionJob} {now : Instant} {locked : List Nat}
    (h : j.runnable now locked = true) : j.status = .pending := by
  simp only [runnable, Bool.and_eq_true, decide_eq_true_eq] at h
  exact h.1.1

/-! What each statement assigns. -/

def claimed (job : CollectionJob) (worker : Text) (now : Instant) : CollectionJob :=
  { job with
    status := .running
    startedAt := some (job.startedAt.getD now)
    heartbeatAt := some now
    attempts := job.attempts + 1
    claimedBy := some worker
    runAfter := none }

def beaten (job : CollectionJob) (now : Instant) : CollectionJob :=
  { job with heartbeatAt := some now }

def requeued (job : CollectionJob) (error : Text) (runAfter : Instant) : CollectionJob :=
  { job with
    status := .pending
    error := some (error.take errorLimit)
    claimedBy := none
    finishedAt := none
    runAfter := some runAfter }

def failed (job : CollectionJob) (error : Text) (now : Instant) : CollectionJob :=
  { job with
    status := .failed
    error := some (error.take errorLimit)
    claimedBy := none
    finishedAt := some now }

def released (job : CollectionJob) : CollectionJob :=
  { job with status := .pending, claimedBy := none, runAfter := none }

def completed (job : CollectionJob) (startedAt finishedAt : Instant) : CollectionJob :=
  { job with
    status := .completed
    error := none
    startedAt := some startedAt
    finishedAt := some finishedAt }

section

variable (job : CollectionJob) (worker error : Text) (now t : Instant)

@[simp] theorem claimed_id : (job.claimed worker now).id = job.id := rfl
@[simp] theorem beaten_id : (job.beaten now).id = job.id := rfl
@[simp] theorem requeued_id : (job.requeued error t).id = job.id := rfl
@[simp] theorem failed_id : (job.failed error now).id = job.id := rfl
@[simp] theorem released_id : job.released.id = job.id := rfl
@[simp] theorem completed_id : (job.completed now t).id = job.id := rfl

end

end CollectionJob

namespace Queue

/-- `UPDATE collection_jobs SET .. WHERE ..` -/
def updateJobs (st : Store) (p : CollectionJob → Bool) (f : CollectionJob → CollectionJob)
    (hf : ∀ j, (f j).id = j.id) : Store :=
  { st with jobs := st.jobs.update p f hf }

def enqueue (st : Store) (sourceId maxAttempts : Nat) (now : Instant) : Store :=
  { st with
    jobs := st.jobs.put (JobRepository.blank st.jobs.next sourceId maxAttempts now) }

def nextJob (st : Store) (now : Instant) (locked : List Nat) : Option CollectionJob :=
  (ranked (fun j => toLex (j.createdAt, j.id))
    (st.jobs.select (CollectionJob.runnable now locked))).head?

def sourceName (st : Store) (sourceId : Nat) : Text :=
  ((st.sources.find? sourceId).map Source.name).getD "None".toList

def claim (st : Store) (worker : Text) (now : Instant) (locked : List Nat) :
    Option ClaimedJob × Store :=
  match nextJob st now locked with
  | none => (none, st)
  | some job =>
      let row := job.claimed worker now
      (some ⟨row.id, row.sourceId, sourceName st row.sourceId, row.attempts, row.maxAttempts⟩,
        updateJobs st (fun j => j.id == job.id) (fun j => j.claimed worker now)
          fun j => j.claimed_id worker now)

def heartbeat (st : Store) (jobId : Nat) (now : Instant) : Store :=
  updateJobs st (fun j => j.id == jobId && j.running) (fun j => j.beaten now)
    fun j => j.beaten_id now

/-- Back to pending while retries remain, otherwise failed for good. -/
def fail (st : Store) (job : ClaimedJob) (error : Text) (now : Instant) (jitter : ℚ) :
    JobStatus × Store :=
  if job.attempts < job.maxAttempts then
    let runAfter := now + timedelta (backoffSeconds job.attempts jitter)
    (.pending,
      updateJobs st (fun j => j.id == job.id) (fun j => j.requeued error runAfter)
        fun j => j.requeued_id error runAfter)
  else
    (.failed,
      updateJobs st (fun j => j.id == job.id) (fun j => j.failed error now)
        fun j => j.failed_id error now)

/-- Requeues the jobs whose worker stopped heartbeating, or fails them. `failedAt` is the second
reading of the clock. -/
def recoverStale (st : Store) (staleAfter : ℚ) (now failedAt : Instant) : Nat × Store :=
  let cutoff := now - timedelta staleAfter
  let stale (j : CollectionJob) : Bool := j.running && j.silent cutoff
  let exhausted (j : CollectionJob) : Bool := stale j && j.exhausted
  let swept := updateJobs st exhausted (fun j => j.failed stoppedResponding failedAt)
    fun j => j.failed_id stoppedResponding failedAt
  ((st.jobs.select exhausted).length + (swept.jobs.select stale).length,
    updateJobs swept stale CollectionJob.released CollectionJob.released_id)

/-- What a collection of the job leaves in `collection_jobs` when it commits. -/
def complete (st : Store) (jobId : Nat) (startedAt finishedAt : Instant) : Store :=
  updateJobs st (fun j => j.id == jobId) (fun j => j.completed startedAt finishedAt)
    fun j => j.completed_id startedAt finishedAt

section Rows

variable (st : Store) (k : Nat)

theorem find?_updateJobs (p : CollectionJob → Bool) (f : CollectionJob → CollectionJob)
    (hf : ∀ j, (f j).id = j.id) :
    (updateJobs st p f hf).jobs.find? k =
      (st.jobs.find? k).map fun j => if p j then f j else j :=
  Table.find?_update st.jobs p f hf k

theorem id_of_find? {st : Store} {k : Nat} {j : CollectionJob} (h : st.jobs.find? k = some j) :
    j.id = k :=
  (Table.find?_eq_some.mp h).2

theorem find?_updateById (jobId : Nat) (p : CollectionJob → Bool)
    (f : CollectionJob → CollectionJob) (hf : ∀ j, (f j).id = j.id) :
    (updateJobs st (fun j => j.id == jobId && p j) f hf).jobs.find? k =
      if k = jobId then (st.jobs.find? k).map fun j => if p j then f j else j
      else st.jobs.find? k := by
  rw [find?_updateJobs]
  cases h : st.jobs.find? k with
  | none => simp
  | some j =>
      have hid := id_of_find? h
      by_cases hk : k = jobId <;> simp [hid, hk]

theorem find?_updateRow (jobId : Nat) (f : CollectionJob → CollectionJob)
    (hf : ∀ j, (f j).id = j.id) :
    (updateJobs st (fun j => j.id == jobId) f hf).jobs.find? k =
      if k = jobId then (st.jobs.find? k).map f else st.jobs.find? k := by
  have hby := find?_updateById st k jobId (fun _ => true) f hf
  simpa only [Bool.and_true, if_true] using hby

theorem find?_enqueue (sourceId maxAttempts : Nat) (now : Instant) :
    (enqueue st sourceId maxAttempts now).jobs.find? k =
      if k = st.jobs.next then some (JobRepository.blank k sourceId maxAttempts now)
      else st.jobs.find? k := by
  have hput := Table.find?_put st.jobs (JobRepository.blank st.jobs.next sourceId maxAttempts now) k
  refine hput.trans ?_
  by_cases hk : k = st.jobs.next
  · simp [hk, JobRepository.blank]
  · simp [hk, JobRepository.blank]

theorem find?_heartbeat (jobId : Nat) (now : Instant) :
    (heartbeat st jobId now).jobs.find? k =
      if k = jobId then (st.jobs.find? k).map fun j => if j.running then j.beaten now else j
      else st.jobs.find? k :=
  find?_updateById st k jobId CollectionJob.running _ _

/-- What `fail` makes of the job's row: it never looks at the row. -/
def failedRow (job : ClaimedJob) (error : Text) (now : Instant) (jitter : ℚ)
    (j : CollectionJob) : CollectionJob :=
  if job.attempts < job.maxAttempts then
    j.requeued error (now + timedelta (backoffSeconds job.attempts jitter))
  else j.failed error now

theorem find?_fail (job : ClaimedJob) (error : Text) (now : Instant) (jitter : ℚ) :
    (fail st job error now jitter).2.jobs.find? k =
      if k = job.id then (st.jobs.find? k).map (failedRow job error now jitter)
      else st.jobs.find? k := by
  unfold fail failedRow
  split
  · exact find?_updateRow st k job.id _ _
  · exact find?_updateRow st k job.id _ _

theorem find?_complete (jobId : Nat) (startedAt finishedAt : Instant) :
    (complete st jobId startedAt finishedAt).jobs.find? k =
      if k = jobId then (st.jobs.find? k).map fun j => j.completed startedAt finishedAt
      else st.jobs.find? k :=
  find?_updateRow st k jobId _ _

/-- What `recover_stale` makes of a row. -/
def sweptRow (staleAfter : ℚ) (now failedAt : Instant) (j : CollectionJob) : CollectionJob :=
  if j.running && j.silent (now - timedelta staleAfter) then
    if j.exhausted then j.failed stoppedResponding failedAt else j.released
  else j

theorem find?_recoverStale (staleAfter : ℚ) (now failedAt : Instant) :
    (recoverStale st staleAfter now failedAt).2.jobs.find? k =
      (st.jobs.find? k).map (sweptRow staleAfter now failedAt) := by
  unfold recoverStale
  dsimp only
  rw [find?_updateJobs, find?_updateJobs, Option.map_map]
  congr 1
  funext j
  simp only [Function.comp_apply, sweptRow]
  by_cases hs : (j.running && j.silent (now - timedelta staleAfter)) = true
  · by_cases he : j.exhausted = true
    · have hdead : (j.failed stoppedResponding failedAt).running = false := rfl
      simp [hs, he, hdead]
    · simp [hs, he]
  · simp [hs]

end Rows

section Claim

variable {st : Store}

/-- A claim that hands a job out found it runnable, and changes its row alone. -/
theorem claim_eq_some {worker : Text} {now : Instant} {locked : List Nat} {c : ClaimedJob}
    (h : (claim st worker now locked).1 = some c) :
    ∃ j, st.jobs.find? c.id = some j ∧ j.runnable now locked = true ∧
      ∀ k, (claim st worker now locked).2.jobs.find? k =
        if k = c.id then some (j.claimed worker now) else st.jobs.find? k := by
  unfold claim at h ⊢
  cases hnext : nextJob st now locked with
  | none => simp [hnext] at h
  | some job =>
      simp only [hnext, Option.some.injEq] at h
      subst h
      obtain ⟨hmem, hrun⟩ := Table.mem_select.mp (mem_ranked.mp (List.mem_of_head? hnext))
      have hfind : st.jobs.find? job.id = some job := Table.find?_eq_some.mpr ⟨hmem, rfl⟩
      refine ⟨job, hfind, hrun, fun k => ?_⟩
      refine (find?_updateRow st k job.id _ _).trans ?_
      by_cases hk : k = job.id
      · simp [hk, hfind, CollectionJob.claimed]
      · simp [hk, CollectionJob.claimed]

theorem claim_eq_none {worker : Text} {now : Instant} {locked : List Nat}
    (h : (claim st worker now locked).1 = none) : (claim st worker now locked).2 = st := by
  unfold claim at h ⊢
  cases hnext : nextJob st now locked with
  | none => rfl
  | some job => simp [hnext] at h

end Claim

end Queue

end LeadPipe
