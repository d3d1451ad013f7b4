import Mathlib.Logic.Function.Iterate
import LeadPipe.Pipeline.Statements

/-!
# Queueing a job for a source

`enqueue_if_idle` of `app/jobs/service.py`, once as a program and once as the sequence of its
statements, between any two of which other transactions may commit.
-/

namespace LeadPipe

open Framework

/-- The row locks PostgreSQL takes here, from the weakest to the strongest. -/
inductive RowLock where
  | keyShare
  | noKeyUpdate
  | update
  deriving DecidableEq

def RowLock.conflicts : RowLock → RowLock → Bool
  | .keyShare, .keyShare | .keyShare, .noKeyUpdate | .noKeyUpdate, .keyShare => false
  | _, _ => true

/-- A lock on the row of a source. -/
abbrev SourceLock := Nat × RowLock

def SourceLock.collides (a b : SourceLock) : Bool := a.1 == b.1 && a.2.conflicts b.2

/-- The lock a write keeps on the row of a source until its transaction ends. A row that refers to
the source locks its key. -/
def Write.sourceLock : Write → Option SourceLock
  | .insertRecord r => some (r.sourceId, .keyShare)
  | .insertJob j => some (j.sourceId, .keyShare)
  | .updateSource r => some (r.id, .noKeyUpdate)
  | _ => none

def activeStatuses : List JobStatus := [.pending, .running]

def CollectionJob.active (job : CollectionJob) : Bool := activeStatuses.contains job.status

theorem CollectionJob.active_iff {j : CollectionJob} :
    j.active = true ↔ j.status = .pending ∨ j.status = .running := by
  simp [active, activeStatuses]

namespace JobService

def activeJob (st : Store) (sourceId : Nat) : Option Nat :=
  ((st.jobs.select fun j => j.sourceId == sourceId && j.active).head?).map CollectionJob.id

theorem activeJob_eq_none {st : Store} {sourceId : Nat} :
    activeJob st sourceId = none ↔ ∀ j ∈ st.jobs, j.sourceId = sourceId → j.active = false := by
  rw [activeJob, Option.map_eq_none_iff, List.head?_eq_none_iff, List.eq_nil_iff_forall_not_mem]
  simp only [Table.mem_select, Bool.and_eq_true, beq_iff_eq, not_and, Bool.not_eq_true]

/-- Queues a job unless one is already waiting or running for this source. -/
def enqueueIfIdle (config : SourceConfig) (now : Instant) : Db (Option CollectionJob) := do
  let source ← SourceRepository.upsert config.name config.type config.priority config.enabled
    config.options
  -- `SELECT .. FOR UPDATE`: what it returns is not looked at
  let _ ← Txn.query fun st => st.sources.find? source.id
  match ← Txn.query fun st => activeJob st source.id with
  | some _ => return none
  | none =>
      let job ← JobRepository.create source.id now
      return some job

end JobService

/-- The transaction of one tick, before its next statement. -/
inductive Tick.Phase where
  | reading
  | creating
  | assigning (source : Source)
  | locking (source : Source)
  | checking (source : Source)
  | inserting (source : Source)
  | finished (source : Source) (job : Option CollectionJob)
  deriving DecidableEq

structure Tick where
  config : SourceConfig
  now : Instant
  phase : Tick.Phase
  log : List Write

namespace Tick

def start (config : SourceConfig) (now : Instant) : Tick := ⟨config, now, .reading, []⟩

def assigned (t : Tick) (source : Source) : Source :=
  { source with
    type := t.config.type
    priority := t.config.priority
    enabled := t.config.enabled
    config := t.config.options }

/-- The source whose row `SELECT .. FOR UPDATE` has locked. -/
def locked (t : Tick) : Option Nat :=
  match t.phase with
  | .checking source | .inserting source | .finished source _ => some source.id
  | _ => none

def created (t : Tick) : Option CollectionJob :=
  match t.phase with
  | .finished _ job => job
  | _ => none

def locks (t : Tick) : List SourceLock :=
  (t.locked.map fun sourceId => (sourceId, RowLock.update)).toList ++
    t.log.filterMap Write.sourceLock

/-- The lock on the row of a source the next statement waits for. -/
def asks (t : Tick) : Option SourceLock :=
  match t.phase with
  | .assigning source => if t.assigned source ≠ source then some (source.id, .noKeyUpdate) else none
  | .locking source => some (source.id, .update)
  | .inserting source => some (source.id, .keyShare)
  | _ => none

/-- The next statement, on what is committed when it starts and the transaction's own writes. A
number taken from a sequence stays taken. -/
def advance (st : Store) (t : Tick) : Store × Tick :=
  let view := Session.replay t.log st
  match t.phase with
  | .reading =>
      match SourceRepository.byName view t.config.name with
      | none => (st, { t with phase := .creating })
      | some source => (st, { t with phase := .assigning source })
  | .creating =>
      let row : Source := ⟨view.sources.next, t.config.name, t.config.type, t.config.priority,
        t.config.enabled, t.config.options⟩
      ({ st with sources := st.sources.reserve (row.id + 1) },
        { t with phase := .locking row, log := t.log ++ [.insertSource row] })
  | .assigning source =>
      let row := t.assigned source
      (st, { t with
        phase := .locking row
        log := if row ≠ source then t.log ++ [.updateSource row] else t.log })
  | .locking source => (st, { t with phase := .checking source })
  | .checking source =>
      match JobService.activeJob view source.id with
      | some _ => (st, { t with phase := .finished source none })
      | none => (st, { t with phase := .inserting source })
  | .inserting source =>
      let row := JobRepository.blank view.jobs.next source.id JobRepository.defaultMaxAttempts t.now
      ({ st with jobs := st.jobs.reserve (row.id + 1) },
        { t with phase := .finished source (some row), log := t.log ++ [.insertJob row] })
  | .finished _ _ => (st, t)

/-- The statements of one transaction without anything in between. -/
def uninterrupted (st : Store) (t : Tick) : Store × Tick :=
  (fun p : Store × Tick => p.2.advance p.1)^[5] (st, t)

/-- The transaction has decided what the program returns, and has the program's writes. -/
def Decides (r : Store × Tick)
    (p : Except (Exn PyError) (Option CollectionJob) × Session Store Write RunStats) : Prop :=
  ∃ source job, r.2.phase = .finished source job ∧ p.1 = .ok job ∧
    p.2.view = Session.replay r.2.log r.1 ∧ p.2.log = r.2.log

private theorem replay_jobs {ws : List Write} (hws : ∀ w ∈ ws, w.OfSources)
    (jobs : Table CollectionJob) (st : Store) :
    Session.replay ws { st with jobs } = { Session.replay ws st with jobs } := by
  induction ws generalizing st with
  | nil => rfl
  | cons w ws ih =>
      have hw := hws w List.mem_cons_self
      have hrest := ih (fun w hw => hws w (List.mem_cons_of_mem _ hw)) (w.apply st)
      cases w <;> first | exact hrest | exact hw.elim

private theorem locking_decides {t : Tick} {source : Source} (hphase : t.phase = .locking source)
    {st : Store} {s : Session Store Write RunStats} (h : s.Healthy)
    (hview : s.view = Session.replay t.log st) (hlog : s.log = t.log)
    (hws : ∀ w ∈ t.log, w.OfSources) :
    Decides ((fun p : Store × Tick => p.2.advance p.1)^[3] (st, t)) ((do
      let _ ← Txn.query fun st => st.sources.find? source.id
      match ← Txn.query fun st => JobService.activeJob st source.id with
      | some _ => return none
      | none =>
          let job ← JobRepository.create source.id t.now
          return some job : Db (Option CollectionJob)) s) := by
  obtain ⟨config, now, phase, log⟩ := t
  subst hphase
  dsimp only at hview hlog hws ⊢
  rw [Txn.bind_ok (Txn.query_healthy h _), Txn.bind_ok (Txn.query_healthy h _)]
  simp only [Function.iterate_succ_apply, Function.iterate_zero, id_eq, advance, hview]
  have hjobs : (Session.replay log st).jobs = st.jobs := by
    obtain ⟨sources, hreplay⟩ := Store.replay_sources hws st
    rw [hreplay]
  cases hactive : JobService.activeJob (Session.replay log st) source.id with
  | some jobId => exact ⟨source, none, rfl, rfl, hview, hlog⟩
  | none =>
      dsimp only
      rw [JobRepository.create, Txn.bind_ok (Db.insert_healthy h _ _ _), Txn.pure_run, hview]
      set row := JobRepository.blank (Session.replay log st).jobs.next source.id
        JobRepository.defaultMaxAttempts now
      refine ⟨source, some row, rfl, rfl, ?_, ?_⟩
      · have hput : (st.jobs.reserve (row.id + 1)).put row = st.jobs.put row :=
          Table.put_reserve st.jobs row
        dsimp only
        rw [Session.emit_view, Session.replay_append,
          replay_jobs hws (st.jobs.reserve (row.id + 1)) st, hview]
        change { Session.replay log st with jobs := (Session.replay log st).jobs.put row } =
          { Session.replay log st with jobs := (st.jobs.reserve (row.id + 1)).put row }
        rw [hput, hjobs]
      · dsimp only
        rw [Session.emit_log, hlog]

private theorem reading_upserts (st : Store) (config : SourceConfig) (now : Instant) :
    ∃ source s, SourceRepository.upsert config.name config.type config.priority config.enabled
        config.options st.session = (.ok source, s) ∧ s.Healthy ∧
      ∃ st' log, (fun p : Store × Tick => p.2.advance p.1)^[2] (st, start config now) =
          (st', ⟨config, now, .locking source, log⟩) ∧
        s.view = Session.replay log st' ∧ s.log = log ∧ ∀ w ∈ log, w.OfSources := by
  have hopen : st.session.Healthy := ⟨rfl, rfl⟩
  have hfind : SourceRepository.byName st.session.view config.name =
      SourceRepository.byName st config.name := rfl
  unfold SourceRepository.upsert
  rw [Txn.bind_ok (Txn.query_healthy hopen _), hfind]
  cases hfound : SourceRepository.byName st config.name with
  | none =>
      dsimp only
      rw [Db.insert_healthy hopen]
      set row : Source := ⟨st.sources.next, config.name, config.type, config.priority,
        config.enabled, config.options⟩ with hrow
      refine ⟨row, _, rfl, hopen.emit _, { st with sources := st.sources.reserve (row.id + 1) },
        [.insertSource row], ?_, ?_, rfl, by simp [Write.OfSources]⟩
      · simp only [Function.iterate_succ_apply, Function.iterate_zero, id_eq, advance, start,
          Session.replay_nil, hfound, List.nil_append]
        rfl
      · have hput : (st.sources.reserve (row.id + 1)).put row = st.sources.put row :=
          Table.put_reserve st.sources row
        change { st with sources := st.sources.put row } =
          { st with sources := (st.sources.reserve (row.id + 1)).put row }
        rw [hput]
  | some source =>
      set row : Source := ⟨source.id, source.name, config.type, config.priority, config.enabled,
        config.options⟩ with hrow
      have htwo : (fun p : Store × Tick => p.2.advance p.1)^[2] (st, start config now) =
          (st, ⟨config, now, .locking row, if row ≠ source then [.updateSource row] else []⟩) := by
        simp only [Function.iterate_succ_apply, Function.iterate_zero, id_eq, advance, start,
          Session.replay_nil, hfound, List.nil_append]
        rfl
      rw [htwo]
      dsimp only
      by_cases hsame : row = source
      · rw [if_neg (not_not.mpr hsame), if_neg (not_not.mpr hsame)]
        exact ⟨row, st.session, rfl, hopen, st, [], rfl, rfl, rfl, by simp⟩
      · rw [if_pos hsame, if_pos hsame, Txn.bind_ok (Txn.execute_healthy hopen _)]
        exact ⟨row, _, rfl, hopen.emit _, st, [.updateSource row], rfl, rfl, rfl,
          by simp [Write.OfSources]⟩

/-- A transaction nobody interrupts is the program. -/
theorem uninterrupted_decides (st : Store) (config : SourceConfig) (now : Instant) :
    Decides (uninterrupted st (start config now))
      (JobService.enqueueIfIdle config now st.session) := by
  obtain ⟨source, s, hup, hs, st', log, htwo, hview, hlog, hws⟩ := reading_upserts st config now
  unfold uninterrupted JobService.enqueueIfIdle
  rw [show 5 = 3 + 2 from rfl, Function.iterate_add_apply, Txn.bind_ok hup, htwo]
  exact locking_decides rfl hs hview hlog hws

end Tick

end LeadPipe
