import LeadPipe.Jobs.Worker
import LeadPipe.Pipeline.Accounting

/-!
# What a failed run leaves

`run_collection` saves the counters and marks the job before it raises what the source raised,
and both of its callers roll that back: `Worker.run_once` and `_collect_all` of the command
line. The worker then writes the error to the job; the counters are nowhere.
-/

namespace LeadPipe

open Framework

variable (env : Platform)

/-- One source of `leadpipe collect`. -/
structure Invocation where
  config : SourceConfig
  collection : Collection
  startedAt : Instant
  finishedAt : Instant

namespace Invocation

def run (invocation : Invocation) : Db Unit :=
  runCollection env invocation.config none invocation.collection invocation.startedAt
    invocation.finishedAt

/-- The job `run_collection` creates for it. -/
def job (invocation : Invocation) (st : Store) : Option Nat :=
  match (openRun invocation.config none invocation.startedAt st.session).1 with
  | .ok (_, job, _) => some job.id
  | .error _ => none

end Invocation

/-- `_collect_all`: one transaction for each source, and the first exception ends the command.
What the database holds afterwards comes with the outcome. -/
def collectAll : List Invocation → Store → Except (Exn PyError) Unit × Store
  | [], st => (.ok (), st)
  | invocation :: rest, st =>
      match Txn.commit (invocation.run env) st.session with
      | .ok st' => collectAll rest st'
      | .error e => (.error e, st)

/-- The job row carries the error and a result row the counters. -/
structure RecordsFailure (st : Store) (jobId : Nat) (error : Text) (counters : Persisted) :
    Prop where
  job : ∃ row, st.jobs.find? jobId = some row ∧ row.error = some error
  results : ∃ row ∈ st.results, row.jobId = jobId ∧ row.counters = counters

/-- The counters when the run ends, which are those it has passed to `save_results`. -/
def countersOf (config : SourceConfig) (jobId : Option Nat) (collection : Collection)
    (startedAt finishedAt : Instant) (st : Store) : Persisted :=
  (runCollection env config jobId collection startedAt finishedAt st.session).2.notes.persisted

section Raising

variable {env} {s : Session Store Write RunStats}

theorem bind_fails {α β : Type} {m : Db α} {f : α → Db β}
    (h : ∀ a s, ∃ e s', f a s = (.error e, s')) (s : Session Store Write RunStats) :
    ∃ e s', (m >>= f) s = (.error e, s') := by
  rcases hm : m s with ⟨e | a, s'⟩
  · exact ⟨e, s', Txn.bind_error hm⟩
  · rw [Txn.bind_ok hm]
    exact h a s'

theorem closeRun_fails (job : CollectionJob) (message : Text) (now : Instant)
    (s : Session Store Write RunStats) :
    ∃ e s', closeRun job (.error (.sourceError message)) now s = (.error e, s') :=
  bind_fails (fun _ => bind_fails fun _ => bind_fails fun _ _ => ⟨_, _, rfl⟩) s

variable (env) in
theorem runCollection_fails (config : SourceConfig) (jobId : Option Nat)
    (items : List (CollectedItem × Option Nat)) (message : Text) (startedAt finishedAt : Instant)
    (s : Session Store Write RunStats) :
    ∃ e s', runCollection env config jobId ⟨items, .error (.sourceError message)⟩ startedAt
      finishedAt s = (.error e, s') :=
  bind_fails (fun _ => bind_fails fun _ => closeRun_fails _ message finishedAt) s

variable (env) in
theorem commit_fails (config : SourceConfig) (jobId : Option Nat)
    (items : List (CollectedItem × Option Nat)) (message : Text) (startedAt finishedAt : Instant)
    (s : Session Store Write RunStats) :
    ∃ e, Txn.commit (runCollection env config jobId ⟨items, .error (.sourceError message)⟩
      startedAt finishedAt) s = .error e := by
  obtain ⟨e, s', hrun⟩ := runCollection_fails env config jobId items message startedAt
    finishedAt s
  refine ⟨e, ?_⟩
  unfold Txn.commit
  rw [hrun]

variable (env) in
/-- Without a database failure the run raises the exception of the source. -/
theorem commit_reraises {config : SourceConfig} {jobId : Option Nat} {startedAt : Instant}
    {st : Store} {source : Source} {job : CollectionJob} {suppressions : SuppressionList}
    (hopen : openRun config jobId startedAt st.session = (.ok (source, job, suppressions), s))
    (items : List CollectedItem) (message : Text) (finishedAt : Instant) :
    Txn.commit (runCollection env config jobId
      ⟨items.map fun i => (i, none), .error (.sourceError message)⟩ startedAt finishedAt)
        st.session = .error (.raised (.sourceError message)) := by
  obtain ⟨s₁, hloop, h₁⟩ := loop_healthy env (openRun_healthy ⟨rfl, rfl⟩ hopen) source config
    job.id suppressions items
  obtain ⟨s₂, hclose, -⟩ := closeRun_reraises h₁ job message finishedAt
  have hrun : runCollection env config jobId
      ⟨items.map fun i => (i, none), .error (.sourceError message)⟩ startedAt finishedAt
      st.session = (.error (.raised (.sourceError message)), s₂) := by
    unfold runCollection
    rw [Txn.bind_ok hopen]
    dsimp only
    rw [Txn.bind_ok hloop, hclose]
  unfold Txn.commit
  rw [hrun]

end Raising

namespace Worker

variable {env} {task : Task} {st : Store}

theorem results_fail (job : ClaimedJob) (error : Text) (now : Instant) (jitter : ℚ) :
    (Queue.fail st job error now jitter).2.results = st.results := by
  unfold Queue.fail
  split <;> rfl

theorem work_of_error {collection : Collection} {e : Exn PyError}
    (h : process env task collection st = .error e) :
    work env task collection st =
      (Queue.fail st task.job (task.describe e) task.failedAt task.jitter).2 := by
  unfold work
  rw [h]

/-- The error is on the job afterwards, and the results are those from before. -/
theorem recordsFailure_work_iff {collection : Collection} {e : Exn PyError}
    (hj : (st.jobs.find? task.job.id).isSome) (h : process env task collection st = .error e)
    (counters : Persisted) :
    RecordsFailure (work env task collection st) task.job.id
        ((task.describe e).take errorLimit) counters ↔
      ∃ row ∈ st.results, row.jobId = task.job.id ∧ row.counters = counters := by
  obtain ⟨stored, hstored⟩ := Option.isSome_iff_exists.mp hj
  have hwork := work_of_error h
  have hresults : (work env task collection st).results = st.results := by
    rw [hwork]
    exact results_fail _ _ _ _
  constructor
  · intro hrecords
    rw [← hresults]
    exact hrecords.results
  · intro hrow
    refine ⟨⟨Queue.failedRow task.job (task.describe e) task.failedAt task.jitter stored, ?_, ?_⟩,
      by rwa [hresults]⟩
    · rw [hwork, Queue.find?_fail, if_pos rfl, hstored, Option.map_some]
    · unfold Queue.failedRow
      split <;> rfl

end Worker

section CommandLine

variable {env} {st st' : Store}

/-- The first sources commit, one after the other; the run that raises leaves nothing. -/
theorem collectAll_stops {done : List Invocation}
    (hdone : collectAll env done st = (.ok (), st')) {failing : Invocation} {e : Exn PyError}
    (h : Txn.commit (failing.run env) st'.session = .error e) (rest : List Invocation) :
    collectAll env (done ++ failing :: rest) st = (.error e, st') := by
  induction done generalizing st with
  | nil =>
      obtain rfl : st = st' := (Prod.mk.inj hdone).2
      rw [List.nil_append, collectAll, h]
  | cons invocation done ih =>
      rw [collectAll] at hdone
      rw [List.cons_append, collectAll]
      split at hdone
      · exact ih hdone
      · cases hdone

theorem job_fresh (failing : Invocation) (st : Store) :
    failing.job st = some st.jobs.next ∧ st.jobs.find? st.jobs.next = none := by
  have hopen : st.session.Healthy := ⟨rfl, rfl⟩
  obtain ⟨source, job, suppressions, s', hrun, hid⟩ :=
    openRun_creates hopen failing.config failing.startedAt
  constructor
  · unfold Invocation.job
    rw [hrun]
    exact congrArg some hid
  · cases hfind : st.jobs.find? st.jobs.next with
    | none => rfl
    | some row =>
        obtain ⟨hmem, hkey⟩ := Table.find?_eq_some.mp hfind
        exact absurd (Table.key_lt_next hmem) hkey.not_lt

end CommandLine

/-- After a run that ends in a source error: under the worker the job carries the error, but the
counters are stored only if an earlier run of the same job has stored the very same; under the
command line there is not even the job. -/
theorem failed_run_recorded_iff (env : Platform) :
    (∀ (task : Worker.Task) (items : List (CollectedItem × Option Nat)) (message : Text)
        (st : Store), (st.jobs.find? task.job.id).isSome →
      ∃ e, Worker.process env task ⟨items, .error (.sourceError message)⟩ st = .error e ∧
        ((∀ i ∈ items, i.2 = none) → e = .raised (.sourceError message)) ∧
        (RecordsFailure (Worker.work env task ⟨items, .error (.sourceError message)⟩ st)
            task.job.id ((task.describe e).take errorLimit)
            (countersOf env task.config (some task.job.id)
              ⟨items, .error (.sourceError message)⟩ task.startedAt task.finishedAt st) ↔
          ∃ row ∈ st.results, row.jobId = task.job.id ∧
            row.counters = countersOf env task.config (some task.job.id)
              ⟨items, .error (.sourceError message)⟩ task.startedAt task.finishedAt st)) ∧
    ∀ (done rest : List Invocation) (failing : Invocation) (message : Text) (st st' : Store),
      collectAll env done st = (.ok (), st') →
      failing.collection.ending = .error (.sourceError message) →
      ∃ e jobId, collectAll env (done ++ failing :: rest) st = (.error e, st') ∧
        failing.job st' = some jobId ∧
        ∀ error counters, ¬RecordsFailure st' jobId error counters := by
  constructor
  · intro task items message st hj
    obtain ⟨e, he⟩ := commit_fails env task.config (some task.job.id) items message
      task.startedAt task.finishedAt st.session
    refine ⟨e, he, fun hquiet => ?_, Worker.recordsFailure_work_iff hj he _⟩
    obtain ⟨stored, hstored⟩ := Option.isSome_iff_exists.mp hj
    obtain ⟨source, ws, suppressions, hopen, -⟩ :=
      openRun_run (s := st.session) ⟨rfl, rfl⟩ task.config hstored task.startedAt
    have hitems : items = (items.map Prod.fst).map fun i => (i, none) := by
      rw [List.map_map]
      refine (List.map_id items).symm.trans (List.map_congr_left fun i hi => ?_)
      exact Prod.ext rfl (hquiet i hi)
    have hraised := commit_reraises env hopen (items.map Prod.fst) message
      task.finishedAt
    rw [← hitems, he] at hraised
    exact Except.error.inj hraised
  · intro done rest failing message st st' hdone hending
    obtain ⟨e, he⟩ := commit_fails env failing.config none failing.collection.items
      message failing.startedAt failing.finishedAt st'.session
    have hrun : Txn.commit (failing.run env) st'.session = .error e := by
      rw [← hending] at he
      exact he
    obtain ⟨hjob, hnone⟩ := job_fresh failing st'
    refine ⟨e, st'.jobs.next, collectAll_stops hdone hrun rest, hjob, fun error counters h => ?_⟩
    obtain ⟨row, hrow, -⟩ := h.job
    rw [hnone] at hrow
    cases hrow

def brokenSource : Collection :=
  ⟨[(Worker.csvItem "1".toList "a@x.fi", none)], .error (.sourceError "HTTP 500".toList)⟩

def brokenInvocation : Invocation := ⟨Worker.csvTask.config, brokenSource, 1, 2⟩

theorem failed_run_recorded_iff_broken :
    (∃ e, Worker.process .ascii Worker.csvTask brokenSource Worker.claimedStore = .error e ∧
      ((∀ i ∈ brokenSource.items, i.2 = none) → e = .raised (.sourceError "HTTP 500".toList)) ∧
      (RecordsFailure (Worker.work .ascii Worker.csvTask brokenSource Worker.claimedStore) 1
          ((Worker.csvTask.describe e).take errorLimit)
          (countersOf .ascii Worker.csvTask.config (some 1) brokenSource 1 2
            Worker.claimedStore) ↔
        ∃ row ∈ Worker.claimedStore.results, row.jobId = 1 ∧
          row.counters = countersOf .ascii Worker.csvTask.config (some 1) brokenSource 1 2
            Worker.claimedStore)) ∧
    ∃ e jobId, collectAll .ascii [brokenInvocation] Store.empty = (.error e, Store.empty) ∧
      brokenInvocation.job Store.empty = some jobId ∧
      ∀ error counters, ¬RecordsFailure Store.empty jobId error counters :=
  ⟨(failed_run_recorded_iff .ascii).1 Worker.csvTask brokenSource.items "HTTP 500".toList
      Worker.claimedStore (by decide +kernel),
    (failed_run_recorded_iff .ascii).2 [] [] brokenInvocation "HTTP 500".toList Store.empty
      Store.empty rfl rfl⟩

/-- The record collected before the source failed is counted nowhere. -/
theorem failed_run_is_forgotten :
    ¬∀ env : Platform,
      (∀ (task : Worker.Task) (items : List (CollectedItem × Option Nat)) (message : Text)
          (st : Store), (st.jobs.find? task.job.id).isSome →
        ∃ e, Worker.process env task ⟨items, .error (.sourceError message)⟩ st = .error e ∧
          RecordsFailure (Worker.work env task ⟨items, .error (.sourceError message)⟩ st)
            task.job.id ((task.describe e).take errorLimit)
            (countersOf env task.config (some task.job.id)
              ⟨items, .error (.sourceError message)⟩ task.startedAt task.finishedAt st)) ∧
      ∀ (done rest : List Invocation) (failing : Invocation) (message : Text) (st st' : Store),
        collectAll env done st = (.ok (), st') →
        failing.collection.ending = .error (.sourceError message) →
        ∃ jobId, failing.job st' = some jobId ∧
          RecordsFailure (collectAll env (done ++ failing :: rest) st).2 jobId message
            (countersOf env failing.config none failing.collection failing.startedAt
              failing.finishedAt st') := by
  intro h
  obtain ⟨e, -, hrecords⟩ := (h .ascii).1 Worker.csvTask brokenSource.items "HTTP 500".toList
    Worker.claimedStore (by decide +kernel)
  have hnone : (Worker.work .ascii Worker.csvTask brokenSource Worker.claimedStore).results.rows =
      [] := by decide +kernel
  obtain ⟨row, hrow, -⟩ := hrecords.results
  have hmem : row ∈ (Worker.work .ascii Worker.csvTask brokenSource
      Worker.claimedStore).results.rows := hrow
  rw [hnone] at hmem
  cases hmem

/-- On the command line the job is gone as well. -/
example : (collectAll .ascii [brokenInvocation] Store.empty).2.jobs.rows = [] := by
  decide +kernel

end LeadPipe
