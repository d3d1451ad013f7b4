import LeadPipe.Framework.Books
import LeadPipe.Framework.Transition
import LeadPipe.Jobs.Worker
import LeadPipe.Pipeline.Admission

/-!
# Everything that happens to the database

The requests of `app/api/routes.py`, the commands of `app/cli.py`, the ticks of the scheduler and
the steps of the workers, in any order but one transaction after the other: a collection is one
step, and none begins before it has ended. A transaction is rolled back when its program raises, and
any of its statements may be refused.
-/

namespace LeadPipe

open Framework

variable (env : Platform)

namespace JobService

def syncSources : List SourceConfig → Db (List Source)
  | [] => pure []
  | config :: configs => do
      let source ← SourceRepository.upsert config.name config.type config.priority config.enabled
        config.options
      let sources ← syncSources configs
      return source :: sources

def enqueue (config : SourceConfig) (now : Instant) : Db CollectionJob := do
  let source ← SourceRepository.upsert config.name config.type config.priority config.enabled
    config.options
  JobRepository.create source.id now

end JobService

/-- `_suppress` of the command line with `--remove`: whatever has the value, of either kind. -/
def SuppressionRepository.removeValue (st : Store) (kind : SuppressionKind) (value : Text) :
    Store :=
  let target := normalizeValue env kind value
  (st.suppressions.select fun e => e.value == target).foldl (fun st e => remove st e.id) st

theorem SuppressionRepository.removeValue_keeps {P : Store → Prop}
    (hremove : ∀ st suppressionId, P st → P (remove st suppressionId)) {st : Store} (h : P st)
    (kind : SuppressionKind) (value : Text) : P (removeValue env st kind value) := by
  unfold removeValue
  dsimp only
  generalize (st.suppressions.select fun e => e.value == normalizeValue env kind value) = entries
  induction entries generalizing st with
  | nil => exact h
  | cons e entries ih => exact ih (hremove st e.id h)

/-- The sequences stay where a rolled back transaction has left them. -/
def Store.rolledBack (st view : Store) : Store :=
  { st with
    sources := st.sources.reserve view.sources.next
    records := st.records.reserve view.records.next
    leads := st.leads.reserve view.leads.next
    merges := st.merges.reserve view.merges.next
    jobs := st.jobs.reserve view.jobs.next
    results := st.results.reserve view.results.next }

/-- The programs that end in a commit. -/
inductive Transaction where
  | syncSources (configs : List SourceConfig)
  | collect (config : SourceConfig) (jobId : Option Nat) (collection : Collection)
      (startedAt finishedAt : Instant)
  | enqueue (config : SourceConfig) (now : Instant)
  | enqueueIfIdle (config : SourceConfig) (now : Instant)

namespace Transaction

def program : Transaction → Db Unit
  | syncSources configs => do
      let _ ← JobService.syncSources configs
      return ()
  | collect config jobId collection startedAt finishedAt =>
      runCollection env config jobId collection startedAt finishedAt
  | enqueue config now => do
      let _ ← JobService.enqueue config now
      return ()
  | enqueueIfIdle config now => do
      let _ ← JobService.enqueueIfIdle config now
      return ()

/-- The session of the transaction; `fault` is the statement the database refuses. -/
def session (st : Store) (fault : Option Nat) : Session Store Write RunStats :=
  { st.session with fault := fault }

/-- What is committed, or what the rollback leaves. -/
def perform (t : Transaction) (st : Store) (fault : Option Nat) : Store :=
  match Txn.commit (t.program env) (session st fault) with
  | .ok st' => st'
  | .error _ => st.rolledBack (t.program env (session st fault)).2.view

end Transaction

inductive Operation where
  | transaction (t : Transaction) (fault : Option Nat)
  | claim (worker : Text) (now : Instant) (locked : List Nat)
  | heartbeat (jobId : Nat) (now : Instant)
  | fail (job : ClaimedJob) (error : Text) (now : Instant) (jitter : ℚ)
  | recoverStale (staleAfter : ℚ) (now failedAt : Instant)
  | deleteLead (leadId : Nat) (suppress : Bool)
  | purge (cutoff : Instant)
  | suppress (kind : SuppressionKind) (value : Text) (reason : Option Text)
  | unsuppress (suppressionId : Nat)
  | removeValue (kind : SuppressionKind) (value : Text)

namespace Operation

def step (st : Store) : Operation → Store
  | transaction t fault => t.perform env st fault
  | claim worker now locked => (Queue.claim st worker now locked).2
  | heartbeat jobId now => Queue.heartbeat st jobId now
  | fail job error now jitter => (Queue.fail st job error now jitter).2
  | recoverStale staleAfter now failedAt => (Queue.recoverStale st staleAfter now failedAt).2
  | deleteLead leadId suppressed => (deleteLeadRoute env st leadId suppressed).getD st
  | purge cutoff => st.purgeOlderThan cutoff
  | suppress kind value reason => SuppressionRepository.add env st kind value reason
  | unsuppress suppressionId => SuppressionRepository.remove st suppressionId
  | removeValue kind value => SuppressionRepository.removeValue env st kind value

end Operation

/-- A state the system gets into. -/
def Store.Reached (st : Store) : Prop := ∃ ops, execute (Operation.step env) .empty ops = st

variable {env}

theorem Store.Reached.step {st : Store} (h : st.Reached env) (op : Operation) :
    (op.step env st).Reached env := by
  obtain ⟨ops, rfl⟩ := h
  exact ⟨ops ++ [op], execute_append _ ops [op]⟩

theorem Store.Reached.execute {st : Store} (h : st.Reached env) (ops : List Operation) :
    (Framework.execute (Operation.step env) st ops).Reached env :=
  execute_invariant h (fun _ op hst => hst.step op) ops

theorem Transaction.program_rules {W : Write → Prop} {N : (RunStats → RunStats) → Prop}
    {C : (α : Type) → Db α → Prop} (hC : Txn.Rules W N C) (t : Transaction)
    (hsource : ∀ config : SourceConfig, C Source (SourceRepository.upsert config.name config.type
      config.priority config.enabled config.options))
    (hjob : ∀ sourceId now, C CollectionJob (JobRepository.create sourceId now))
    (hcollect : ∀ config jobId collection startedAt finishedAt,
      t = .collect config jobId collection startedAt finishedAt →
        C Unit (runCollection env config jobId collection startedAt finishedAt)) :
    C Unit (t.program env) := by
  cases t with
  | syncSources configs =>
      have hsync : C (List Source) (JobService.syncSources configs) := by
        clear hcollect
        induction configs with
        | nil => exact hC.pure _
        | cons config configs ih =>
            exact hC.bind (hsource config) fun _ => hC.bind ih fun _ => hC.pure _
      exact hC.bind hsync fun _ => hC.pure _
  | collect config jobId collection startedAt finishedAt => exact hcollect _ _ _ _ _ rfl
  | enqueue config now =>
      exact hC.bind (hC.bind (hsource config) fun _ => hjob _ now) fun _ => hC.pure _
  | enqueueIfIdle config now =>
      refine hC.bind (hC.bind (hsource config) fun source => ?_) fun _ => hC.pure _
      refine hC.bind (hC.query _) fun _ => hC.bind (hC.query _) fun active => ?_
      cases active with
      | some _ => exact hC.pure _
      | none => exact hC.bind (hjob _ now) fun _ => hC.pure _

/-- What a run is opened with: its job is a new one or the one that was asked for, and the
suppressions are those of the moment. -/
theorem openRun_upholds {P E : Store → RunStats → Prop} {R : Source → Store → RunStats → Prop}
    {S T : Source → CollectionJob → Store → RunStats → Prop} {config : SourceConfig}
    {jobId : Option Nat} {now : Instant}
    (hsource : Txn.Upholds P (SourceRepository.upsert config.name config.type config.priority
      config.enabled config.options) R E)
    (hcreate : jobId = none →
      ∀ source, Txn.Upholds (R source) (JobRepository.create source.id now) (S source) E)
    (hfound : ∀ source job st stats, jobId = some job.id → R source st stats →
      S source job st stats)
    (hmissing : ∀ source st stats, R source st stats → E st stats)
    (hmark : ∀ source job,
      Txn.Upholds (S source job) (JobRepository.markRunning job now) (T source) E) :
    Txn.Upholds P (openRun config jobId now)
      (fun p st stats => T p.1 p.2.1 st stats ∧ p.2.2 = SuppressionRepository.list st) E := by
  refine .bind hsource fun source => ?_
  have hopened (job : CollectionJob) : Txn.Upholds (S source job) (do
      let job ← JobRepository.markRunning job now
      let suppressions ← SuppressionRepository.load
      return (source, job, suppressions) : Db (Source × CollectionJob × SuppressionList))
      (fun p st stats => T p.1 p.2.1 st stats ∧ p.2.2 = SuppressionRepository.list st) E :=
    .bind (hmark source job) fun _ => .bind (.query _) fun _ => .pure fun _ _ h => h
  cases jobId with
  | some id =>
      refine .bind (.query _) fun found => ?_
      cases found with
      | none => exact .raise fun _ _ h => hmissing source _ _ h.1
      | some job =>
          refine (hopened job).conseq (fun st stats h => ?_) (fun _ _ _ h => h) fun _ _ h => h
          have hid : job.id = id := (Table.find?_eq_some.mp h.2.symm).2
          exact hfound source job st stats (congrArg some hid.symm) h.1
  | none =>
      refine Txn.Upholds.bind (Q := fun found st stats => ∃ job, found = some job ∧
        S source job st stats) (.bind (hcreate rfl source) fun job =>
          .pure fun _ _ h => ⟨job, rfl, h⟩) fun found => ?_
      cases found with
      | none => exact .raise fun _ _ ⟨_, hnone, _⟩ => by cases hnone
      | some job =>
          refine (hopened job).conseq (fun st stats h => ?_) (fun _ _ _ h => h) fun _ _ h => h
          obtain ⟨_, ⟨⟩, h⟩ := h
          exact h

section Constraints

variable {rows : List RowRef}

theorem JobService.syncSources_safe (configs : List SourceConfig) :
    Db.Safe rows (JobService.syncSources configs) fun _ => [] := by
  induction configs generalizing rows with
  | nil => exact .pure (by simp)
  | cons config configs ih =>
      exact .bind (SourceRepository.upsert_safe _ _ _ _ _) fun _ =>
        .bind ih fun _ => .pure (by simp)

theorem JobService.enqueue_safe (config : SourceConfig) (now : Instant) :
    Db.Safe rows (JobService.enqueue config now) fun job => [.job job.id] :=
  .bind (SourceRepository.upsert_safe _ _ _ _ _) fun _ => JobRepository.create_safe (by simp) now

theorem JobService.enqueueIfIdle_safe (config : SourceConfig) (now : Instant) :
    Db.Safe rows (JobService.enqueueIfIdle config now) fun _ => [] := by
  refine .bind (SourceRepository.upsert_safe _ _ _ _ _) fun source => ?_
  refine .bind (.read _) fun _ => .bind (.read _) fun active => ?_
  cases active with
  | some _ => exact .pure (by simp)
  | none => exact .bind (JobRepository.create_safe (by simp) now) fun _ => .pure (by simp)

theorem Transaction.program_safe (t : Transaction) :
    Db.Safe rows (t.program env) fun _ => [] := by
  cases t with
  | syncSources configs =>
      exact .bind (JobService.syncSources_safe configs) fun _ => .pure (by simp)
  | collect config jobId collection startedAt finishedAt =>
      exact runCollection_safe env config jobId collection startedAt finishedAt
  | enqueue config now => exact .bind (JobService.enqueue_safe config now) fun _ => .pure (by simp)
  | enqueueIfIdle config now =>
      exact .bind (JobService.enqueueIfIdle_safe config now) fun _ => .pure (by simp)

variable (env) in
theorem Transaction.writes (t : Transaction) {st : Store} (h : st.Consistent)
    (fault : Option Nat) :
    ∃ ws, (t.program env (session st fault)).2.log = ws ∧
      (t.program env (session st fault)).2.view = Session.replay ws st ∧
      AllAdmitted Store.Admits st ws := by
  have hsafe : Db.Safe [] (t.program env) fun _ => [] := t.program_safe
  obtain ⟨ws, hlog, hview, hall, -⟩ := hsafe (session st fault) ⟨h, by simp⟩
  exact ⟨ws, hlog, hview, hall⟩

variable (env) in
/-- Either the writes of the transaction are there, or nothing but numbers that were handed out. -/
theorem Transaction.perform_cases (t : Transaction) (st : Store) (fault : Option Nat) :
    t.perform env st fault = (t.program env (session st fault)).2.view ∨
      t.perform env st fault = st.rolledBack (t.program env (session st fault)).2.view := by
  unfold perform Txn.commit
  rcases t.program env (session st fault) with ⟨e | a, s⟩
  · exact .inr rfl
  · by_cases hinvalid : s.invalid = true
    · simp [hinvalid]
    · simp [hinvalid]

theorem Store.Consistent.rolledBack {st : Store} (h : st.Consistent) (view : Store) :
    (st.rolledBack view).Consistent :=
  { h with leadsFromOne := ⟨h.leadsFromOne.1.trans (le_max_left _ _), h.leadsFromOne.2⟩ }

theorem Store.Consistent.claim {st : Store} (h : st.Consistent) (worker : Text) (now : Instant)
    (locked : List Nat) : (Queue.claim st worker now locked).2.Consistent := by
  unfold Queue.claim
  cases Queue.nextJob st now locked with
  | none => exact h
  | some job => exact h.updateJobs _ fun _ => rfl

theorem Store.Consistent.fail {st : Store} (h : st.Consistent) (job : ClaimedJob) (error : Text)
    (now : Instant) (jitter : ℚ) : (Queue.fail st job error now jitter).2.Consistent := by
  unfold Queue.fail
  split
  · exact h.updateJobs _ fun _ => rfl
  · exact h.updateJobs _ fun _ => rfl

theorem Store.Consistent.step {st : Store} (h : st.Consistent) (op : Operation) :
    (op.step env st).Consistent := by
  cases op with
  | transaction t fault =>
      obtain ⟨ws, -, hview, hall⟩ := t.writes env h fault
      rcases t.perform_cases env st fault with hdone | hback
      · change (t.perform env st fault).Consistent
        rw [hdone, hview]
        exact hall.keeps (fun _ _ hv hw => hv.write hw) h
      · change (t.perform env st fault).Consistent
        rw [hback]
        exact h.rolledBack _
  | claim worker now locked => exact h.claim worker now locked
  | heartbeat jobId now => exact h.updateJobs _ fun _ => rfl
  | fail job error now jitter => exact h.fail job error now jitter
  | recoverStale staleAfter now failedAt =>
      refine Store.Consistent.updateJobs (Store.Consistent.updateJobs h _ ?_) _ ?_
      · exact fun _ => rfl
      · exact fun _ => rfl
  | deleteLead leadId suppress => exact h.deleteLeadRoute env leadId suppress
  | purge cutoff => exact h.purgeOlderThan cutoff
  | suppress kind value reason => exact h.add env kind value reason
  | unsuppress suppressionId => exact h.eraseSuppressions _
  | removeValue kind value =>
      exact SuppressionRepository.removeValue_keeps env (fun _ _ hst => hst.eraseSuppressions _) h
        kind value

theorem Store.Reached.consistent {st : Store} (h : st.Reached env) : st.Consistent := by
  obtain ⟨ops, rfl⟩ := h
  exact execute_invariant Store.consistent_empty (fun _ op hst => hst.step op) ops

end Constraints

/-- Whatever transactions were run before, one after the other, the tables satisfy the constraints
of the schema, and no statement of the next transaction violates one. -/
theorem constraints_are_never_violated {st : Store} (h : st.Reached env) (t : Transaction)
    (fault : Option Nat) :
    st.Consistent ∧
      AllAdmitted Store.Admits st (t.program env (Transaction.session st fault)).2.log := by
  obtain ⟨ws, hlog, -, hall⟩ := t.writes env h.consistent fault
  rw [hlog]
  exact ⟨h.consistent, hall⟩

def collectedOnce : List Operation :=
  [.transaction (.enqueue Worker.csvTask.config 0) none, .claim "one".toList 0 [],
    .transaction (.collect Worker.csvTask.config (some 1)
      ⟨[(Worker.csvItem "1".toList "a@x.fi", none)], .ok ()⟩ 1 2) none]

/-- The same record again, and one statement of the transaction is refused. -/
theorem constraints_are_never_violated_refused :
    (execute (Operation.step .ascii) .empty collectedOnce).Consistent ∧
      AllAdmitted Store.Admits (execute (Operation.step .ascii) .empty collectedOnce)
        ((Transaction.collect Worker.csvTask.config none
          ⟨[(Worker.csvItem "1".toList "b@x.fi", some 3)], .ok ()⟩ 3 4).program .ascii
            (Transaction.session (execute (Operation.step .ascii) .empty collectedOnce)
              none)).2.log :=
  constraints_are_never_violated ⟨collectedOnce, rfl⟩ _ none

example : ∃ l ∈ (execute (Operation.step .ascii) .empty collectedOnce).leads, l.id = 1 := by
  decide +kernel

end LeadPipe
