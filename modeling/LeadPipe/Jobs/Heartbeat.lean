import LeadPipe.Framework.Transition
import LeadPipe.Jobs.Worker

/-!
# A collection and its own heartbeat

`run_once` starts the collection of a job and, next to it, a task that heartbeats the job in
sessions of its own. An `UPDATE` keeps the lock of its row until its transaction ends, so the
two meet on the row of the job: the collection's transaction is the whole run. Which rows it
holds is read off its log.
-/

namespace LeadPipe

open Framework

variable (env : Platform)

/-- The write locks the row of a job. Rows that refer to the job only share its key, which an
update of other columns does not wait for. -/
def Write.locksJob (jobId : Nat) : Write → Bool
  | .updateJob id _ => id == jobId
  | _ => false

namespace Shift

open Worker

inductive Run where
  | waiting
  | ingesting (source : Source) (job : CollectionJob) (suppressions : SuppressionList)
      (session : Session Store Write RunStats) (left : List (CollectedItem × Option Nat))
  | closed (session : Session Store Write RunStats)
  | over

/-- The heartbeat task sleeps, has sent its `UPDATE`, or has it done and not committed. -/
inductive Beat where
  | asleep
  | asking (now : Instant)
  | holding (now : Instant)
  deriving DecidableEq

end Shift

/-- The two tasks of one worker on one job. -/
structure Shift where
  committed : Store
  run : Shift.Run
  beat : Shift.Beat

inductive ShiftStep where
  | openRun
  | ingest
  | closeRun
  | commit
  | wake (now : Instant)
  | update
  | release
  deriving DecidableEq

namespace Shift

open Worker

def start (st : Store) : Shift := ⟨st, .waiting, .asleep⟩

/-- The collection's transaction holds the row of the job. -/
def locked (jobId : Nat) (s : Shift) : Bool :=
  match s.run with
  | .ingesting _ _ _ session _ => session.log.any (Write.locksJob jobId)
  | .closed session => session.log.any (Write.locksJob jobId)
  | _ => false

/-- The row satisfies the condition of the heartbeat's `UPDATE`. -/
def beats (jobId : Nat) (s : Shift) : Bool :=
  (s.committed.jobs.find? jobId).any CollectionJob.running

/-- The heartbeat waits for the collection it is the heartbeat of. -/
def blocked (jobId : Nat) (s : Shift) : Prop :=
  (∃ now, s.beat = .asking now) ∧ s.beats jobId = true ∧ s.locked jobId = true

def left (s : Shift) : List (CollectedItem × Option Nat) :=
  match s.run with
  | .ingesting _ _ _ _ left => left
  | _ => []

def Stuck (jobId : Nat) (s : Shift) : Prop := s.left ≠ [] ∧ s.blocked jobId

/-- The heartbeat holds the row, and the transaction wants it. -/
def waits (jobId : Nat) (s : Shift) (log : List Write) : Bool :=
  (match s.beat with | .holding _ => true | _ => false) && log.any (Write.locksJob jobId)

def step (task : Task) (collection : Collection) (s : Shift) : ShiftStep → Shift
  | .openRun =>
      match s.run with
      | .waiting =>
          match openRun task.config (some task.job.id) task.startedAt s.committed.session with
          | (.ok (source, job, suppressions), session) =>
              if s.waits task.job.id session.log then s
              else { s with run := .ingesting source job suppressions session collection.items }
          | (.error _, _) => { s with run := .over }
      | _ => s
  | .ingest =>
      match s.run with
      | .ingesting source job suppressions session ((item, fault) :: left) =>
          let r := Txn.armed fault
            (processItem env source task.config job.id suppressions item) session
          let session := match r.1 with
            | .ok _ => r.2
            | .error _ => r.2.note RunStats.countError
          { s with run := .ingesting source job suppressions session left }
      | _ => s
  | .closeRun =>
      match s.run with
      | .ingesting _ job _ session [] =>
          match closeRun job collection.ending task.finishedAt session with
          | (.ok _, session) =>
              if s.waits task.job.id session.log then s else { s with run := .closed session }
          | (.error _, _) => { s with run := .over }
      | _ => s
  | .commit =>
      match s.run with
      | .closed session =>
          { s with committed := Session.replay session.log s.committed, run := .over }
      | _ => s
  | .wake now =>
      match s.beat with
      | .asleep => { s with beat := .asking now }
      | _ => s
  | .update =>
      match s.beat with
      | .asking now =>
          if s.beats task.job.id then
            if s.locked task.job.id then s else { s with beat := .holding now }
          else { s with beat := .asleep }
      | _ => s
  | .release =>
      match s.beat with
      | .holding now =>
          { s with
            committed := Queue.heartbeat s.committed task.job.id now
            beat := .asleep }
      | _ => s

variable {env} {task : Task} {collection : Collection}

theorem execute_ingest (source : Source) (job : CollectionJob) (suppressions : SuppressionList)
    (session : Session Store Write RunStats) (st : Store) (beat : Beat)
    (items : List (CollectedItem × Option Nat)) :
    execute (step env task collection) ⟨st, .ingesting source job suppressions session items, beat⟩
        (items.map fun _ => .ingest) =
      ⟨st, .ingesting source job suppressions (Txn.attemptEach
        (processItem env source task.config job.id suppressions) RunStats.countError items
        session).2 [], beat⟩ := by
  induction items generalizing session with
  | nil => rfl
  | cons item items ih =>
      obtain ⟨item, fault⟩ := item
      rw [List.map_cons, execute_cons]
      simp only [Shift.step, Txn.attemptEach]
      rcases Txn.armed fault (processItem env source task.config job.id suppressions item) session
        with ⟨e | a, session'⟩
      · exact ih (session'.note RunStats.countError)
      · exact ih session'

/-- Opening, ingesting every item, closing and committing. -/
def undisturbed (collection : Collection) : List ShiftStep :=
  .openRun :: ((collection.items.map fun _ => .ingest) ++ [.closeRun, .commit])

theorem execute_over (st : Store) (beat : Beat) {labels : List ShiftStep}
    (hrun : ∀ l ∈ labels, l = .ingest ∨ l = .closeRun ∨ l = .commit) :
    execute (step env task collection) ⟨st, .over, beat⟩ labels = ⟨st, .over, beat⟩ := by
  induction labels with
  | nil => rfl
  | cons l labels ih =>
      have hrest := ih fun l hl => hrun l (List.mem_cons_of_mem _ hl)
      rw [execute_cons]
      rcases hrun l (by simp) with rfl | rfl | rfl
      · exact hrest
      · exact hrest
      · exact hrest

theorem execute_missing (st : Store) (hj : st.jobs.find? task.job.id = none) :
    (execute (step env task collection) (start st) (undisturbed collection)).committed =
      match process env task collection st with
      | .ok st' => st'
      | .error _ => st := by
  have hview : st.session.view.jobs.find? task.job.id = none := hj
  obtain ⟨e, s', hopen⟩ := openRun_missing (s := st.session) ⟨rfl, rfl⟩ task.config hview
    task.startedAt
  have hfirst : step env task collection (start st) .openRun = ⟨st, .over, .asleep⟩ := by
    simp only [Shift.step, start, hopen]
  have hfailed : process env task collection st = .error e := by
    unfold process runCollection Txn.commit
    rw [Txn.bind_error hopen]
  have hleft : ∀ l ∈ (collection.items.map fun _ => ShiftStep.ingest) ++ [.closeRun, .commit],
      l = .ingest ∨ l = .closeRun ∨ l = .commit := by
    intro l hl
    simp only [List.mem_append, List.mem_map, List.mem_cons, List.not_mem_nil, or_false] at hl
    rcases hl with ⟨-, -, rfl⟩ | hl
    · exact .inl rfl
    · exact .inr hl
  rw [undisturbed, execute_cons, hfirst, execute_over st .asleep hleft, hfailed]

/-- Where the session has seen its own writes and nothing else, its end is that of a program. -/
theorem execute_close (st : Store) (source : Source) (job : CollectionJob)
    (suppressions : SuppressionList) {session : Session Store Write RunStats}
    (hquiet : session.fault = none) (hview : Session.replay session.log st = session.view) :
    (execute (step env task collection)
        ⟨st, .ingesting source job suppressions session [], .asleep⟩
        [.closeRun, .commit]).committed =
      match Txn.commit (LeadPipe.closeRun job collection.ending task.finishedAt) session with
      | .ok st' => st'
      | .error _ => st := by
  obtain ⟨ws, hlog, hreplay, -⟩ :=
    (closeRun_composed job collection.ending task.finishedAt).writes session
  rw [execute_cons, execute_cons, execute_nil, Txn.commit]
  simp only [Shift.step]
  rcases hclose : LeadPipe.closeRun job collection.ending task.finishedAt session with
    ⟨e | a, closed⟩
  · rfl
  · rw [hclose] at hlog hreplay
    have hvalid : closed.invalid = false := closeRun_ok hquiet hclose
    simp only [hvalid, Bool.false_eq_true, if_false]
    change Session.replay closed.log st = closed.view
    rw [hlog, hreplay, Session.replay_append, hview]

/-- They leave what `process` leaves, committed or not. -/
theorem execute_undisturbed (st : Store) :
    (execute (step env task collection) (start st) (undisturbed collection)).committed =
      match process env task collection st with
      | .ok st' => st'
      | .error _ => st := by
  cases hj : st.jobs.find? task.job.id with
  | none => exact execute_missing st hj
  | some stored =>
      have hview : st.session.view.jobs.find? task.job.id = some stored := hj
      obtain ⟨source, sourceWrites, suppressions, hopen, -, -⟩ :=
        openRun_run (s := st.session) ⟨rfl, rfl⟩ task.config hview task.startedAt
      set marked := JobRepository.marked stored task.startedAt
      set opened := st.session.emit (sourceWrites ++ JobRepository.flushWrites stored marked)
      have hfirst : step env task collection (start st) .openRun =
          ⟨st, .ingesting source marked suppressions opened collection.items, .asleep⟩ := by
        simp only [Shift.step, start, hopen]
        rfl
      have hbody := processItem_composed env source task.config marked.id suppressions
      set body := processItem env source task.config marked.id suppressions
      obtain ⟨ws, hlog, hreplay, -⟩ :=
        Txn.Composed.attemptEach_writes hbody RunStats.countError collection.items opened
      have hloop : Txn.attemptEach body RunStats.countError collection.items opened =
          (.ok (), (Txn.attemptEach body RunStats.countError collection.items opened).2) :=
        Prod.ext (Txn.attemptEach_ok _ _ _ _) rfl
      have hquiet := Txn.attemptEach_quiet body RunStats.countError collection.items
        (s := opened) rfl
      have hprocess : process env task collection st = Txn.commit
          (LeadPipe.closeRun marked collection.ending task.finishedAt)
          (Txn.attemptEach body RunStats.countError collection.items opened).2 := by
        unfold process runCollection Txn.commit
        rw [Txn.bind_ok hopen]
        dsimp only
        rw [Txn.bind_ok hloop]
      rw [undisturbed, execute_cons, hfirst, execute_append, execute_ingest, hprocess]
      refine execute_close st source marked suppressions hquiet ?_
      rw [hreplay, hlog]
      simp [opened, Session.replay_append, Store.session]

theorem marked_same {row : CollectionJob} {now : Instant} (hs : row.status = .running)
    (ht : row.startedAt = some now) : JobRepository.marked row now = row := by
  cases row
  simp only [JobRepository.marked] at hs ht ⊢
  rw [hs, ht]

theorem flushWrites_self (row : CollectionJob) : JobRepository.flushWrites row row = [] := by
  simp [JobRepository.flushWrites, JobChanges.between, JobChanges.isEmpty,
    JobChanges.changed_eq_none.mpr]

theorem flushWrites_marked {row : CollectionJob} {now : Instant}
    (ht : row.startedAt ≠ some now) :
    (JobRepository.flushWrites row (JobRepository.marked row now)).any (Write.locksJob row.id) =
      true := by
  have hchanged : (JobChanges.between row (JobRepository.marked row now)).isEmpty = false := by
    have hcolumn : (JobChanges.between row (JobRepository.marked row now)).startedAt ≠ none := by
      intro hnone
      exact ht (JobChanges.changed_eq_none.mp hnone).symm
    simp only [JobChanges.isEmpty, decide_eq_false_iff_not]
    intro hnone
    rw [hnone] at hcolumn
    exact hcolumn rfl
  simp [JobRepository.flushWrites, hchanged, Write.locksJob]

/-- While items are left, the transaction has not touched the row of its job. -/
def Unlocked (task : Task) (s : Shift) : Prop :=
  match s.run with
  | .waiting => ∃ row, s.committed.jobs.find? task.job.id = some row ∧
      row.status = .running ∧ row.startedAt = some task.startedAt
  | .ingesting _ _ _ session _ => session.log.any (Write.locksJob task.job.id) = false
  | _ => True

theorem OfRecords_locksJob {w : Write} (h : w.OfRecords) (jobId : Nat) :
    w.locksJob jobId = false := by
  cases w with
  | updateJob => exact h.elim
  | _ => rfl

theorem OfSources_locksJob {w : Write} (h : w.OfSources) (jobId : Nat) :
    w.locksJob jobId = false := by
  cases w with
  | updateJob => exact h.elim
  | _ => rfl

theorem ingest_log (source : Source) (job : CollectionJob) (suppressions : SuppressionList)
    (item : CollectedItem) (fault : Option Nat) (session : Session Store Write RunStats) :
    ∃ ws, (Txn.armed fault (processItem env source task.config job.id suppressions item)
        session).2.log = session.log ++ ws ∧
      ws.any (Write.locksJob task.job.id) = false := by
  obtain ⟨ws, hlog, -, hws⟩ :=
    (processItem_composed env source task.config job.id suppressions item).writes
      { session with fault := fault }
  refine ⟨ws, hlog, ?_⟩
  rw [List.any_eq_false]
  intro w hw
  simp [OfRecords_locksJob (hws w hw)]

theorem Unlocked.openRun {s : Shift} (h : Unlocked task s) :
    Unlocked task (step env task collection s .openRun) := by
  rcases hrun : s.run with _ | _ | _ | _
  · have hwaiting := h
    simp only [Unlocked, hrun] at hwaiting
    obtain ⟨row, hrow, hs, ht⟩ := hwaiting
    have hview : s.committed.session.view.jobs.find? task.job.id = some row := hrow
    obtain ⟨source, ws, suppressions, hopen, hws, -⟩ :=
      openRun_run (s := s.committed.session) ⟨rfl, rfl⟩ task.config hview task.startedAt
    -- the flush finds every column as it was loaded
    rw [marked_same hs ht, flushWrites_self, List.append_nil] at hopen
    simp only [Shift.step, hrun, hopen]
    split
    · exact h
    · have hlog : (s.committed.session.emit ws).log = ws := rfl
      simp only [Unlocked, hlog, List.any_eq_false]
      intro w hw
      simp [OfSources_locksJob (hws w hw)]
  all_goals
    simp only [Shift.step, hrun]
    exact h

theorem Unlocked.ingest {s : Shift} (h : Unlocked task s) :
    Unlocked task (step env task collection s .ingest) := by
  rcases hrun : s.run with _ | ⟨source, job, suppressions, session, _ | ⟨⟨item, fault⟩, left⟩⟩ |
    _ | _
  case ingesting.cons =>
    simp only [Unlocked, hrun] at h
    obtain ⟨ws, hlog, hws⟩ := ingest_log source job suppressions item fault session
    simp only [Shift.step, hrun, Unlocked]
    split
    · rw [hlog, List.any_append, h, hws]
      rfl
    · rw [Session.note_log, hlog, List.any_append, h, hws]
      rfl
  all_goals
    simp only [Shift.step, hrun]
    exact h

theorem Unlocked.closeRun {s : Shift} (h : Unlocked task s) :
    Unlocked task (step env task collection s .closeRun) := by
  rcases hrun : s.run with _ | ⟨source, job, suppressions, session, _ | ⟨item, left⟩⟩ | _ | _
  case ingesting.nil =>
    simp only [Shift.step, hrun]
    rcases LeadPipe.closeRun job collection.ending task.finishedAt session with ⟨e | a, session'⟩
    · trivial
    · dsimp only
      split
      · exact h
      · trivial
  all_goals
    simp only [Shift.step, hrun]
    exact h

theorem Unlocked.release {s : Shift} (h : Unlocked task s) :
    Unlocked task (step env task collection s .release) := by
  simp only [Shift.step]
  split
  · rename_i now hbeat
    rcases hrun : s.run with _ | _ | _ | _ <;> simp only [Unlocked, hrun] at h ⊢
    · obtain ⟨row, hrow, hs, ht⟩ := h
      rw [Queue.find?_heartbeat, if_pos rfl, hrow, Option.map_some]
      refine ⟨_, rfl, ?_⟩
      split
      · exact ⟨hs, ht⟩
      · exact ⟨hs, ht⟩
    · exact h
  · exact h

theorem Unlocked.step {s : Shift} (h : Unlocked task s) (l : ShiftStep) :
    Unlocked task (step env task collection s l) := by
  cases l with
  | openRun => exact h.openRun
  | ingest => exact h.ingest
  | closeRun => exact h.closeRun
  | commit =>
      rcases hrun : s.run with _ | _ | _ | _ <;> simp only [Shift.step, hrun]
      · exact h
      · exact h
      · trivial
      · exact h
  | wake now =>
      simp only [Shift.step]
      split <;> exact h
  | update =>
      simp only [Shift.step]
      split
      · split
        · split <;> exact h
        · exact h
      · exact h
  | release => exact h.release

theorem Unlocked.not_stuck {s : Shift} (h : Unlocked task s) : ¬ s.Stuck task.job.id := by
  rintro ⟨hleft, -, -, hlocked⟩
  unfold left at hleft
  unfold locked at hlocked
  unfold Unlocked at h
  rcases hrun : s.run with _ | _ | _ | _ <;> simp only [hrun] at hleft hlocked h
  · exact hleft rfl
  · rw [h] at hlocked
    cases hlocked
  · exact hleft rfl
  · exact hleft rfl

theorem left_congr {s s' : Shift} (h : s'.run = s.run) : s'.left = s.left := by
  simp only [left, h]

theorem run_wake (s : Shift) (now : Instant) :
    (step env task collection s (.wake now)).run = s.run := by
  simp only [Shift.step]
  split <;> rfl

theorem run_update (s : Shift) : (step env task collection s .update).run = s.run := by
  simp only [Shift.step]
  split
  · split
    · split <;> rfl
    · rfl
  · rfl

theorem run_release (s : Shift) : (step env task collection s .release).run = s.run := by
  simp only [Shift.step]
  split <;> rfl

theorem left_nil_step (hitems : collection.items = []) {s : Shift} (h : s.left = [])
    (l : ShiftStep) : (step env task collection s l).left = [] := by
  cases l with
  | openRun =>
      rcases hrun : s.run with _ | _ | _ | _ <;> simp only [Shift.step, hrun]
      · split
        · split
          · exact h
          · exact hitems
        · rfl
      all_goals exact h
  | ingest =>
      rcases hrun : s.run with _ | ⟨source, job, suppressions, session, _ | ⟨item, rest⟩⟩ | _ | _
      case ingesting.cons =>
        simp only [left, hrun] at h
        cases h
      all_goals
        simp only [Shift.step, hrun]
        exact h
  | closeRun =>
      rcases hrun : s.run with _ | ⟨source, job, suppressions, session, _ | ⟨item, rest⟩⟩ | _ | _
      case ingesting.nil =>
        simp only [Shift.step, hrun]
        split
        · split
          · exact h
          · rfl
        · rfl
      all_goals
        simp only [Shift.step, hrun]
        exact h
  | commit =>
      rcases hrun : s.run with _ | _ | _ | _ <;> simp only [Shift.step, hrun]
      · exact h
      · exact h
      · rfl
      · exact h
  | wake now => rw [left_congr (run_wake s now), h]
  | update => rw [left_congr (run_update s), h]
  | release => rw [left_congr (run_release s), h]

/-- The claim leaves the row running, and started when the flush of `mark_running` compares. -/
theorem claimed_row {st st' : Store} {worker : Text} {now : Instant} {locks : List Nat}
    {c : ClaimedJob} (h : Queue.claim st worker now locks = (some c, st')) :
    ∃ row, st'.jobs.find? c.id = some row ∧ row.status = .running := by
  obtain ⟨j, -, -, hrows⟩ := Queue.claim_eq_some (congrArg Prod.fst h)
  have hrow := hrows c.id
  rw [h, if_pos rfl] at hrow
  exact ⟨j.claimed worker now, hrow, rfl⟩

/-- As soon as the run is open the row is locked, and the first heartbeat waits for the run. -/
theorem stuck_of_changed {st : Store} {row : CollectionJob}
    (hrow : st.jobs.find? task.job.id = some row) (hs : row.status = .running)
    (ht : row.startedAt ≠ some task.startedAt) (hitems : collection.items ≠ []) (now : Instant) :
    (execute (step env task collection) (start st) [.openRun, .wake now]).Stuck task.job.id := by
  have hview : st.session.view.jobs.find? task.job.id = some row := hrow
  obtain ⟨source, ws, suppressions, hopen, -, -⟩ :=
    openRun_run (s := st.session) ⟨rfl, rfl⟩ task.config hview task.startedAt
  have hid : row.id = task.job.id := Queue.id_of_find? hrow
  have hlocks := flushWrites_marked ht
  rw [hid] at hlocks
  set session := st.session.emit (ws ++ JobRepository.flushWrites row
    (JobRepository.marked row task.startedAt)) with hsession
  have hlog : session.log.any (Write.locksJob task.job.id) = true := by
    rw [hsession, Session.emit_log, List.any_append, List.any_append, hlocks]
    simp
  have hfirst : step env task collection (start st) .openRun = { start st with
      run := .ingesting source (JobRepository.marked row task.startedAt) suppressions session
        collection.items } := by
    simp only [Shift.step, start, hopen]
    rfl
  rw [execute_cons, hfirst, execute_cons, execute_nil]
  refine ⟨hitems, ⟨now, rfl⟩, ?_, hlog⟩
  change (st.jobs.find? task.job.id).any CollectionJob.running = true
  rw [hrow, Option.any_some, CollectionJob.running, hs]
  rfl

end Shift

open Shift

theorem heartbeat_never_waits {st st' : Store} {worker : Text} {now : Instant}
    {locks : List Nat} (task : Worker.Task) (collection : Collection)
    (hclaim : Queue.claim st worker now locks = (some task.job, st')) :
    (∀ labels, ¬ (execute (step env task collection) (start st') labels).Stuck task.job.id) ↔
      collection.items = [] ∨
        (st'.jobs.find? task.job.id).bind CollectionJob.startedAt = some task.startedAt := by
  obtain ⟨row, hrow, hs⟩ := claimed_row hclaim
  rw [hrow, Option.bind_some]
  constructor
  · intro hnever
    by_contra hcond
    rw [not_or] at hcond
    exact hnever [.openRun, .wake 0] (stuck_of_changed hrow hs hcond.2 hcond.1 0)
  · rintro (hitems | ht) labels
    · have hleft : (execute (step env task collection) (start st') labels).left = [] :=
        execute_invariant (I := fun s : Shift => s.left = []) rfl
          (fun s l h => left_nil_step hitems h l) labels
      exact fun hstuck => hstuck.1 hleft
    · have hstart : Unlocked task (start st') := ⟨row, hrow, hs, ht⟩
      have hunlocked : Unlocked task
          (execute (step env task collection) (start st') labels) :=
        execute_invariant hstart (fun s l h => Unlocked.step h l) labels
      exact hunlocked.not_stuck

/-- The clock has not moved between the claim and the start of the collection. -/
theorem heartbeat_never_waits_instant :
    Queue.claim Worker.queuedStore "one".toList 0 [] =
        (some Worker.csvTask.job, Worker.claimedStore) ∧
      ∀ labels, ¬ (execute (step .ascii { Worker.csvTask with startedAt := 0 }
        ⟨[(Worker.csvItem "1".toList "a@x.fi", none)], .ok ()⟩) (start Worker.claimedStore)
        labels).Stuck 1 := by
  have hclaim : Queue.claim Worker.queuedStore "one".toList 0 [] =
      (some Worker.csvTask.job, Worker.claimedStore) := Prod.ext (by decide +kernel) rfl
  exact ⟨hclaim, (heartbeat_never_waits .ascii { Worker.csvTask with startedAt := 0 } _
    hclaim).mpr (.inr (by decide +kernel))⟩

/-- One microsecond later the heartbeat waits for the run whose job it keeps alive. -/
theorem heartbeat_waits :
    ¬ ∀ labels, ¬ (execute (step .ascii Worker.csvTask
      ⟨[(Worker.csvItem "1".toList "a@x.fi", none)], .ok ()⟩) (start Worker.claimedStore)
      labels).Stuck 1 := by
  intro hnever
  have hclaim : Queue.claim Worker.queuedStore "one".toList 0 [] =
      (some Worker.csvTask.job, Worker.claimedStore) := Prod.ext (by decide +kernel) rfl
  obtain ⟨row, hrow, hs⟩ := claimed_row hclaim
  have hstarted : (Worker.claimedStore.jobs.find? 1).bind CollectionJob.startedAt = some 0 := by
    decide +kernel
  have ht : row.startedAt = some 0 := by
    rw [show Worker.claimedStore.jobs.find? 1 = some row from hrow] at hstarted
    exact hstarted
  exact hnever [.openRun, .wake 5] (stuck_of_changed hrow hs (by rw [ht]; decide) (by simp) 5)

end LeadPipe
