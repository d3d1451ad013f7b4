import LeadPipe.Jobs.Queue
import LeadPipe.Pipeline.Statements

/-!
# One job of a worker

`Worker._process` and `Worker._fail`: the collection of a claimed job is one transaction, and
what it raises is rolled back and recorded by `fail`. Then what one refused statement does to
the rest of the run.
-/

namespace LeadPipe

open Framework

variable (env : Platform)

namespace Worker

/-- The collection of a job and everything its outcome depends on. `describe` is the text of an
exception, with the name of its type. -/
structure Task where
  job : ClaimedJob
  config : SourceConfig
  startedAt : Instant
  finishedAt : Instant
  failedAt : Instant
  jitter : ℚ
  describe : Exn PyError → Text

/-- `_process`: the committed store, or what was raised. -/
def process (task : Task) (collection : Collection) (st : Store) : Except (Exn PyError) Store :=
  Txn.commit (runCollection env task.config (some task.job.id) collection task.startedAt
    task.finishedAt) st.session

/-- `run_once` after the claim. -/
def work (task : Task) (collection : Collection) (st : Store) : Store :=
  match process env task collection st with
  | .ok st' => st'
  | .error e => (Queue.fail st task.job (task.describe e) task.failedAt task.jitter).2

/-- The items none of whose statements the database refuses, each taken without the ones that
are refused before it. -/
def others (task : Task) (items : List (CollectedItem × Option Nat)) (st : Store) :
    List CollectedItem :=
  match openRun task.config (some task.job.id) task.startedAt st.session with
  | (.ok (source, job, suppressions), s) =>
      Txn.spared (processItem env source task.config job.id suppressions) RunStats.countError
        items s
  | (.error _, _) => []

def statusOf (st : Store) (jobId : Nat) : Option JobStatus :=
  (st.jobs.find? jobId).map CollectionJob.status

def errorsOf (st : Store) (jobId : Nat) : Option Nat :=
  (JobRepository.resultOf st jobId).map fun r => r.counters.errors

/-- Refused items cost themselves: the job completes, they are counted, and the rest is as if
only the other items had been collected. -/
structure Tolerates (task : Task) (items : List (CollectedItem × Option Nat)) (st : Store) :
    Prop where
  completes : statusOf (work env task ⟨items, .ok ()⟩ st) task.job.id = some .completed
  counts : ∃ n,
    errorsOf (work env task ⟨(others env task items st).map fun i => (i, none), .ok ()⟩ st)
        task.job.id = some n ∧
      errorsOf (work env task ⟨items, .ok ()⟩ st) task.job.id =
        some (n + (items.length - (others env task items st).length))
  keeps : (work env task ⟨items, .ok ()⟩ st).records =
      (work env task ⟨(others env task items st).map fun i => (i, none), .ok ()⟩ st).records ∧
    (work env task ⟨items, .ok ()⟩ st).leads =
      (work env task ⟨(others env task items st).map fun i => (i, none), .ok ()⟩ st).leads ∧
    (work env task ⟨items, .ok ()⟩ st).merges =
      (work env task ⟨(others env task items st).map fun i => (i, none), .ok ()⟩ st).merges

variable {env} {task : Task} {st : Store} {stored : CollectionJob}

theorem statusOf_fail (hj : st.jobs.find? task.job.id = some stored) (e : Exn PyError) :
    statusOf (Queue.fail st task.job (task.describe e) task.failedAt task.jitter).2
      task.job.id ≠ some .completed := by
  rw [statusOf, Queue.find?_fail, if_pos rfl, hj, Option.map_some, Option.map_some]
  unfold Queue.failedRow
  split
  · simp [CollectionJob.requeued]
  · simp [CollectionJob.failed]

theorem process_run (env : Platform)
    (hj : st.jobs.find? task.job.id = some stored) :
    ∃ source suppressions s, s.Healthy ∧
      (∀ k, s.view.jobs.find? k = if k = task.job.id then
        some (JobRepository.marked stored task.startedAt) else st.jobs.find? k) ∧
      (∀ items, others env task items st = Txn.spared
        (processItem env source task.config stored.id suppressions) RunStats.countError items
        s) ∧
      ∀ items, process env task ⟨items, .ok ()⟩ st = Txn.commit (closeRun
        (JobRepository.marked stored task.startedAt) (.ok ()) task.finishedAt)
        (Txn.attemptEach (processItem env source task.config stored.id suppressions)
          RunStats.countError items s).2 := by
  have hopen : st.session.Healthy := ⟨rfl, rfl⟩
  have hview : st.session.view.jobs.find? task.job.id = some stored := hj
  have hid : stored.id = task.job.id := Queue.id_of_find? hj
  obtain ⟨source, ws, suppressions, hrun, hws, -⟩ :=
    openRun_run hopen task.config hview task.startedAt
  obtain ⟨sources, hopened⟩ := Store.replay_sources hws st
  refine ⟨source, suppressions, st.session.emit (ws ++ JobRepository.flushWrites stored
    (JobRepository.marked stored task.startedAt)), hopen.emit _, ?_, ?_, ?_⟩
  · intro k
    have hrow := JobRepository.find?_flushWrites { st with sources } stored
      (JobRepository.marked stored task.startedAt) (by rw [hid, hj]) rfl k
    rw [Session.emit_view, Session.replay_append]
    change (Session.replay _ (Session.replay ws st)).jobs.find? k = _
    rw [hopened, hrow, hid]
  · intro items
    rw [others, hrun]
    rfl
  · intro items
    have hloop (body : CollectedItem → Db Unit) (s : Session Store Write RunStats) :
        Txn.attemptEach body RunStats.countError items s =
          (.ok (), (Txn.attemptEach body RunStats.countError items s).2) :=
      Prod.ext (Txn.attemptEach_ok _ _ _ _) rfl
    unfold process runCollection Txn.commit
    rw [Txn.bind_ok hrun]
    dsimp only
    rw [Txn.bind_ok (hloop _ _)]
    rfl

theorem commit_closes (task : Task) (stored : CollectionJob)
    {s : Session Store Write RunStats} (h : s.Healthy)
    (hj : s.view.jobs.find? task.job.id = some (JobRepository.marked stored task.startedAt)) :
    ∃ st', Txn.commit (closeRun (JobRepository.marked stored task.startedAt) (.ok ())
        task.finishedAt) s = .ok st' ∧
      (∀ k, st'.jobs.find? k = if k = task.job.id then
        some (stored.completed task.startedAt task.finishedAt) else s.view.jobs.find? k) ∧
      (errorsOf st' task.job.id).isSome := by
  set marked := JobRepository.marked stored task.startedAt with hmarked
  set done := JobRepository.finished marked .completed none task.finishedAt with hdone
  obtain ⟨w, hclose, hw, r, hr, hrjob⟩ := closeRun_run h marked task.finishedAt
  have hjobs : (w.apply s.view).jobs = s.view.jobs := by
    rcases hw with ⟨row, rfl⟩ | ⟨row, rfl⟩ <;> rfl
  have hid : marked.id = task.job.id := Queue.id_of_find? hj
  refine ⟨Session.replay (JobRepository.flushWrites marked done) (w.apply s.view), ?_, ?_, ?_⟩
  · simp only [Txn.commit, hclose, (h.emit _).valid, Bool.false_eq_true, if_false]
    rfl
  · intro k
    have hrow := JobRepository.find?_flushWrites (w.apply s.view) marked done
      (by rw [hjobs, hid, hj]) rfl k
    rwa [hjobs, hid] at hrow
  · have hmem : r ∈ (Session.replay (JobRepository.flushWrites marked done)
        (w.apply s.view)).results := by
      rw [JobRepository.results_flushWrites]
      exact hr
    have hselected := Table.mem_select (p := fun r => r.jobId == task.job.id).mpr
      ⟨hmem, by simpa using hrjob.trans hid⟩
    rw [errorsOf, Option.isSome_map, JobRepository.resultOf, List.isSome_head?]
    exact List.ne_nil_of_mem hselected

theorem commit_invalid {s : Session Store Write RunStats} (hs : s.invalid = true)
    (job : CollectionJob) (now : Instant) :
    Txn.commit (closeRun job (.ok ()) now) s = .error .invalidated := by
  obtain ⟨s', hclose⟩ := closeRun_invalid hs job now
  simp [Txn.commit, hclose]

/-- A collection that commits leaves in the queue what `Queue.complete` says. -/
theorem process_completes (hj : st.jobs.find? task.job.id = some stored)
    {items : List (CollectedItem × Option Nat)} {st' : Store}
    (h : process env task ⟨items, .ok ()⟩ st = .ok st') (k : Nat) :
    st'.jobs.find? k =
      (Queue.complete st task.job.id task.startedAt task.finishedAt).jobs.find? k := by
  obtain ⟨source, suppressions, s, hopen, hrows, -, hprocess⟩ := process_run env hj
  have hbody := processItem_composed env source task.config stored.id suppressions
  have hquiet := Txn.attemptEach_quiet (processItem env source task.config stored.id suppressions)
    RunStats.countError items hopen.quiet
  have hjobs := Txn.Composed.attemptEach_reads (f := Store.jobs) hbody RunStats.countError
    (fun w hw v => hw.jobs v) items s
  rw [hprocess] at h
  by_cases hdead : (Txn.attemptEach (processItem env source task.config stored.id suppressions)
      RunStats.countError items s).2.invalid = true
  · rw [commit_invalid hdead] at h
    cases h
  · obtain ⟨done, hcommit, hdone, -⟩ := commit_closes task stored
      ⟨by simpa using hdead, hquiet⟩ (by rw [hjobs, hrows, if_pos rfl])
    rw [hcommit] at h
    cases h
    rw [hdone, Queue.find?_complete, hjobs, hrows]
    by_cases hk : k = task.job.id
    · rw [if_pos hk, if_pos hk, hk, hj]
      rfl
    · rw [if_neg hk, if_neg hk, if_neg hk]

end Worker

open Worker

theorem bad_records_cost_themselves (task : Task) (items : List (CollectedItem × Option Nat))
    (st : Store) (hj : (st.jobs.find? task.job.id).isSome) :
    Tolerates env task items st ↔ (others env task items st).length = items.length := by
  obtain ⟨stored, hstored⟩ := Option.isSome_iff_exists.mp hj
  obtain ⟨source, suppressions, s, hopen, hrows, hothers, hprocess⟩ := process_run env hstored
  have hbody (item : CollectedItem) : Txn.Composed Write.OfRecords
      (processItem env source task.config stored.id suppressions item) :=
    processItem_composed env source task.config stored.id suppressions item
  set body := processItem env source task.config stored.id suppressions with hdef
  constructor
  · intro h
    by_contra hne
    have hle := Txn.spared_length_le body RunStats.countError items s
    rw [hothers] at hne
    -- the session is dead when the loop ends, and with it the run
    have hdead := Txn.Composed.attemptEach_invalid hbody RunStats.countError items hopen.valid (by omega)
    have hfailed : process env task ⟨items, .ok ()⟩ st = .error .invalidated := by
      rw [hprocess]
      exact commit_invalid hdead _ _
    have hstatus := h.completes
    rw [work, hfailed] at hstatus
    exact statusOf_fail hstored .invalidated hstatus
  · intro hall
    rw [hothers] at hall
    obtain ⟨hsame, hvalid⟩ := Txn.Composed.attemptEach_spared hbody RunStats.countError
      items hopen.valid hall
    have hquiet := Txn.attemptEach_quiet body RunStats.countError items hopen.quiet
    have hjobs := Txn.Composed.attemptEach_reads (f := Store.jobs) hbody RunStats.countError
      (fun w hw v => hw.jobs v) items s
    obtain ⟨st', hcommit, hdone, hcounted⟩ := commit_closes task stored ⟨hvalid, hquiet⟩
      (by rw [hjobs, hrows, if_pos rfl])
    -- the run of the other items is the very same run
    have hwithout : work env task ⟨(others env task items st).map fun i => (i, none), .ok ()⟩ st =
        work env task ⟨items, .ok ()⟩ st := by
      rw [work, work, hprocess, hprocess, hothers, ← hsame]
    have hwork : work env task ⟨items, .ok ()⟩ st = st' := by
      rw [work, hprocess, hcommit]
    refine ⟨?_, ?_, ?_⟩
    · rw [hwork, statusOf, hdone, if_pos rfl]
      rfl
    · obtain ⟨n, hn⟩ := Option.isSome_iff_exists.mp hcounted
      rw [hwithout, hothers, hall, Nat.sub_self, hwork]
      exact ⟨n, hn, hn⟩
    · rw [hwithout]
      exact ⟨rfl, rfl, rfl⟩

namespace Worker

def queuedStore : Store :=
  Queue.enqueue { Store.empty with
    sources := Table.empty.put ⟨1, "csv".toList, "csv".toList, 10, true, "{}".toList⟩ } 1 3 0

def claimedStore : Store := (Queue.claim queuedStore "one".toList 0 []).2

def csvTask : Task where
  job := ⟨1, 1, "csv".toList, 1, 3⟩
  config := ⟨"csv".toList, "csv".toList, true, 10, none, "{}".toList⟩
  startedAt := 1
  finishedAt := 2
  failedAt := 2
  jitter := 0
  describe _ := "PendingRollbackError".toList

def csvItem (externalId : Text) (email : String) : CollectedItem :=
  .record ⟨⟨"csv".toList, none⟩,
    [("external_id".toList, some externalId), ("email".toList, some email.toList)], 1⟩

end Worker

/-- A source line without columns costs itself only. -/
theorem bad_records_cost_themselves_clean :
    Tolerates .ascii csvTask [(csvItem "1".toList "a@x.fi", none),
      (.error "row 2: no columns".toList, none), (csvItem "3".toList "b@x.fi", none)]
      claimedStore :=
  (bad_records_cost_themselves .ascii csvTask _ claimedStore (by decide +kernel)).mpr
    (by decide +kernel)

/-- An identifier longer than its column: the database refuses the `INSERT`, and with it the
other record and the job. -/
theorem bad_record_costs_run :
    ¬ Tolerates .ascii csvTask [(csvItem (.replicate 129 'x') "a@x.fi", some 1),
      (csvItem "2".toList "b@x.fi", none)] claimedStore := by
  intro h
  have hstatus : statusOf (work .ascii csvTask
      ⟨[(csvItem (.replicate 129 'x') "a@x.fi", some 1), (csvItem "2".toList "b@x.fi", none)],
        .ok ()⟩ claimedStore) 1 = some .pending := by decide +kernel
  have hcompleted := h.completes
  rw [show csvTask.job.id = 1 from rfl, hstatus] at hcompleted
  cases hcompleted

end LeadPipe
