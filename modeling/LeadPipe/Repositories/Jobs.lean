import LeadPipe.Db.Models

/-!
# Jobs and their results

`app/repositories/jobs.py`. The clock is an argument.
-/

namespace LeadPipe

open Framework

namespace JobRepository

def get (jobId : Nat) : Db (Option CollectionJob) := Txn.query fun st => st.jobs.find? jobId

/-- A new row: `PENDING`, no attempt made yet. -/
def blank (id sourceId maxAttempts : Nat) (now : Instant) : CollectionJob where
  id := id
  sourceId := sourceId
  status := .pending
  error := none
  startedAt := none
  finishedAt := none
  attempts := 0
  maxAttempts := maxAttempts
  heartbeatAt := none
  runAfter := none
  claimedBy := none
  createdAt := now

def defaultMaxAttempts : Nat := 3

def create (sourceId : Nat) (now : Instant) : Db CollectionJob :=
  Db.insert (fun st => st.jobs.next) .insertJob fun id =>
    blank id sourceId defaultMaxAttempts now

/-- Assigns columns of a loaded job and flushes; returns the object as it is afterwards. -/
def assign (loaded assigned : CollectionJob) : Db CollectionJob := do
  let changes := JobChanges.between loaded assigned
  if !changes.isEmpty then
    Txn.execute (.updateJob loaded.id changes)
  return assigned

def markRunning (job : CollectionJob) (now : Instant) : Db CollectionJob :=
  assign job { job with status := .running, startedAt := some now }

def markFinished (job : CollectionJob) (status : JobStatus) (error : Option Text)
    (now : Instant) : Db CollectionJob :=
  assign job { job with status := status, error := error, finishedAt := some now }

def resultOf (st : Store) (jobId : Nat) : Option CollectionJobResult :=
  (st.results.select fun r => r.jobId == jobId).head?

def saveResults (jobId : Nat) (counters : Persisted) : Db Unit := do
  match ← Txn.query fun st => resultOf st jobId with
  | none =>
      let _ ← Db.insert (fun st => st.results.next) .insertResult fun id =>
        (⟨id, jobId, counters⟩ : CollectionJobResult)
  | some row => Txn.execute (.updateResult { row with counters })

end JobRepository

end LeadPipe
