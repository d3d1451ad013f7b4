import LeadPipe.System.Operations

/-!
# What the status of a job says

The columns of a job agree with its status in every state the system gets into by transactions that
do not overlap, in whatever order the workers, the recovery of silent jobs and the collections of
the command line take their turns.
-/

namespace LeadPipe

open Framework

variable {env : Platform}

/-- What is in the other columns of a job of its status. -/
def CollectionJob.Coherent (results : Table CollectionJobResult) (j : CollectionJob) : Prop :=
  match j.status with
  | .pending => j.claimedBy = none ∧ j.finishedAt = none
  | .running => j.startedAt.isSome ∧ j.heartbeatAt.isSome ∧ j.claimedBy.isSome ∧
      j.runAfter = none ∧ j.finishedAt = none
  | .completed => j.startedAt.isSome ∧ j.finishedAt.isSome ∧ j.error = none ∧
      ∃ r ∈ results, r.jobId = j.id
  | .failed => j.error.isSome ∧ j.finishedAt.isSome ∧ j.claimedBy = none
  | .cancelled => False

namespace CollectionJob

variable {results results' : Table CollectionJobResult} {j : CollectionJob}

theorem Coherent.mono (h : j.Coherent results)
    (hkept : ∀ r ∈ results, ∃ r' ∈ results', r'.jobId = r.jobId) : j.Coherent results' := by
  unfold Coherent at h ⊢
  cases hstatus : j.status <;> simp only [hstatus] at h ⊢
  case completed =>
    obtain ⟨hstarted, hfinished, herror, r, hr, hid⟩ := h
    obtain ⟨r', hr', hid'⟩ := hkept r hr
    exact ⟨hstarted, hfinished, herror, r', hr', hid'.trans hid⟩
  all_goals exact h

theorem Coherent.claimed (h : j.Coherent results) (hpending : j.status = .pending) (worker : Text)
    (now : Instant) : (j.claimed worker now).Coherent results := by
  simp only [Coherent, hpending] at h
  exact ⟨rfl, rfl, rfl, rfl, h.2⟩

theorem Coherent.beaten (h : j.Coherent results) (hrunning : j.status = .running)
    (now : Instant) : (j.beaten now).Coherent results := by
  simp only [Coherent, hrunning] at h
  have hstatus : (j.beaten now).status = .running := hrunning
  simp only [Coherent, hstatus]
  exact ⟨h.1, rfl, h.2.2⟩

theorem Coherent.released (h : j.Coherent results) (hrunning : j.status = .running) :
    j.released.Coherent results := by
  simp only [Coherent, hrunning] at h
  exact ⟨rfl, h.2.2.2.2⟩

theorem coherent_requeued (j : CollectionJob) (error : Text) (runAfter : Instant) :
    (j.requeued error runAfter).Coherent results := ⟨rfl, rfl⟩

theorem coherent_failed (j : CollectionJob) (error : Text) (now : Instant) :
    (j.failed error now).Coherent results := ⟨rfl, rfl, rfl⟩

theorem coherent_blank (id sourceId maxAttempts : Nat) (now : Instant) :
    (JobRepository.blank id sourceId maxAttempts now).Coherent results := ⟨rfl, rfl⟩

end CollectionJob

namespace Store

/-- Every job but this one is coherent. -/
def Underway (jobId : Nat) (st : Store) : Prop :=
  ∀ j ∈ st.jobs, j.id ≠ jobId → j.Coherent st.results

def JobsCoherent (st : Store) : Prop := ∀ j ∈ st.jobs, j.Coherent st.results

variable {st st' : Store}

theorem JobsCoherent.put (h : st.JobsCoherent) {row : CollectionJob}
    (hrow : row.Coherent st.results) : JobsCoherent { st with jobs := st.jobs.put row } := by
  intro j hj
  rcases Table.mem_put.mp hj with rfl | ⟨hj, -⟩
  · exact hrow
  · exact h j hj

theorem JobsCoherent.updateJobs (h : st.JobsCoherent) {p : CollectionJob → Bool}
    {f : CollectionJob → CollectionJob} {hf : ∀ j, (f j).id = j.id}
    (hcoherent : ∀ j ∈ st.jobs, p j = true → (f j).Coherent st.results) :
    (Queue.updateJobs st p f hf).JobsCoherent := by
  intro j hj
  have hupdated : j ∈ st.jobs.update p f hf := hj
  obtain ⟨a, ha, rfl⟩ := Table.mem_update.mp hupdated
  split
  · exact hcoherent a ha ‹_›
  · exact h a ha

theorem Underway.settled {jobId : Nat} {job : CollectionJob} (h : st.Underway jobId)
    (hrow : st.jobs.find? jobId = some job) (hjob : job.Coherent st.results) :
    st.JobsCoherent := by
  intro j hj
  by_cases hid : j.id = jobId
  · have hfind : st.jobs.find? j.id = some j := Table.find?_eq_some.mpr ⟨hj, rfl⟩
    rw [hid, hrow] at hfind
    cases hfind
    exact hjob
  · exact h j hj hid

end Store

section Run

def Write.Elsewhere (w : Write) : Prop :=
  ∀ st, (w.apply st).jobs = st.jobs ∧ (w.apply st).results = st.results

theorem Write.elsewhere_of_sources {w : Write} (h : w.OfSources) : w.Elsewhere := by
  intro st
  cases w <;> first | exact ⟨rfl, rfl⟩ | exact h.elim

theorem Write.elsewhere_of_records {w : Write} (h : w.OfRecords) : w.Elsewhere := by
  intro st
  cases w <;> first | exact ⟨rfl, rfl⟩ | exact h.elim

variable {α : Type} {m : Db α} {W : Write → Prop}

theorem Db.Ensures.elsewhere (h : Txn.Composed W m) (hW : ∀ w, W w → w.Elsewhere)
    (I : Table CollectionJob → Table CollectionJobResult → Prop) :
    Db.Ensures (fun st => I st.jobs st.results) m fun _ st => I st.jobs st.results := by
  refine (Txn.Triple.composed h fun st w hst hw => ?_).allow fun _ _ _ => trivial
  change I (w.apply st).jobs (w.apply st).results
  rw [(hW w hw st).1, (hW w hw st).2]
  exact hst

theorem upsert_ofSources (config : SourceConfig) :
    Txn.Composed Write.OfSources (SourceRepository.upsert config.name config.type config.priority
      config.enabled config.options) := by
  refine .bind (.query _) fun found => ?_
  cases found with
  | none => exact Db.insert_composed _ _ _ fun _ => trivial
  | some source =>
      dsimp only
      split
      · exact .bind (.execute trivial) fun _ => .pure _
      · exact .pure _

theorem create_coherent (sourceId : Nat) (now : Instant) :
    Db.Ensures Store.JobsCoherent (JobRepository.create sourceId now) fun job st =>
      st.JobsCoherent ∧ st.jobs.find? job.id = some job :=
  Db.insert_triple fun _ hst => ⟨trivial,
    hst.put (CollectionJob.coherent_blank _ _ _ _), (Table.find?_put _ _ _).trans (if_pos rfl)⟩

theorem assign_underway (R : Table CollectionJobResult → Prop) {loaded assigned : CollectionJob}
    (hsame : assigned = { loaded with
      status := assigned.status, error := assigned.error, startedAt := assigned.startedAt,
      finishedAt := assigned.finishedAt }) :
    Db.Ensures
      (fun st => st.Underway loaded.id ∧ st.jobs.find? loaded.id = some loaded ∧ R st.results)
      (JobRepository.assign loaded assigned) fun job st =>
        job = assigned ∧ st.Underway loaded.id ∧ st.jobs.find? loaded.id = some assigned ∧
          R st.results := by
  have hflushed (st : Store) (hunder : st.Underway loaded.id)
      (hrow : st.jobs.find? loaded.id = some loaded) (hR : R st.results) :
      (Session.replay (JobRepository.flushWrites loaded assigned) st).Underway loaded.id ∧
        (Session.replay (JobRepository.flushWrites loaded assigned) st).jobs.find? loaded.id =
          some assigned ∧
        R (Session.replay (JobRepository.flushWrites loaded assigned) st).results := by
    have hrows := JobRepository.find?_flushWrites st loaded assigned hrow hsame
    rw [Store.Underway, JobRepository.results_flushWrites]
    refine ⟨fun j hj hne => hunder j ?_ hne, by rw [hrows, if_pos rfl], hR⟩
    have hfind := Table.find?_eq_some.mpr ⟨hj, rfl⟩
    rw [hrows, key_job, if_neg hne] at hfind
    exact (Table.find?_eq_some.mp hfind).1
  unfold JobRepository.assign
  unfold JobRepository.flushWrites at hflushed
  dsimp only at hflushed ⊢
  by_cases hempty : (JobChanges.between loaded assigned).isEmpty = true
  · simp only [hempty, if_true, Session.replay_nil] at hflushed
    simp only [hempty, Bool.not_true, Bool.false_eq_true, if_false]
    exact .pure fun st hst => ⟨rfl, hflushed st hst.1 hst.2.1 hst.2.2⟩
  · simp only [hempty, Bool.false_eq_true, if_false] at hflushed
    simp only [hempty, Bool.not_false, if_true]
    exact .bind (.execute fun st hst => ⟨trivial, hflushed st hst.1 hst.2.1 hst.2.2⟩)
      fun _ => .pure fun _ hst => ⟨rfl, hst⟩

theorem openRun_underway (config : SourceConfig) (jobId : Option Nat) (now : Instant) :
    Db.Ensures Store.JobsCoherent (openRun config jobId now) fun p st =>
      st.Underway p.2.1.id ∧ st.jobs.find? p.2.1.id = some p.2.1 ∧ p.2.1.startedAt.isSome := by
  refine .bind (Db.Ensures.elsewhere (upsert_ofSources config)
    (fun _ => Write.elsewhere_of_sources) fun jobs results => ∀ j ∈ jobs, j.Coherent results)
    fun source => ?_
  have hopened (job : CollectionJob) : Db.Ensures
      (fun st => st.Underway job.id ∧ st.jobs.find? job.id = some job ∧ True) (do
        let job ← JobRepository.markRunning job now
        let suppressions ← SuppressionRepository.load
        return (source, job, suppressions) : Db (Source × CollectionJob × SuppressionList))
      fun p st =>
        st.Underway p.2.1.id ∧ st.jobs.find? p.2.1.id = some p.2.1 ∧ p.2.1.startedAt.isSome := by
    refine .bind (assign_underway (fun _ => True) rfl) fun marked => ?_
    refine .bind (.query _) fun suppressions => .pure fun st hst => ?_
    obtain ⟨rfl, hunder, hrow, -⟩ := hst.1
    exact ⟨hunder, hrow, rfl⟩
  cases jobId with
  | some id =>
      refine .bind (.query _) fun found => ?_
      cases found with
      | none => exact .raise _
      | some job =>
          refine (hopened job).conseq (fun st hst => ?_) fun _ _ hst => hst
          have hfind : st.jobs.find? id = some job := hst.2.symm
          have hid : job.id = id := (Table.find?_eq_some.mp hfind).2
          rw [hid]
          exact ⟨fun j hj _ => hst.1 j hj, hfind, trivial⟩
  | none =>
      have hcreated : Db.Ensures Store.JobsCoherent
          (some <$> JobRepository.create source.id now : Db (Option CollectionJob)) fun found st =>
            ∃ job, found = some job ∧ st.JobsCoherent ∧ st.jobs.find? job.id = some job :=
        .bind (create_coherent source.id now) fun job => .pure fun _ hst => ⟨job, rfl, hst⟩
      refine .bind hcreated fun found => ?_
      cases found with
      | none => exact .raise _
      | some job =>
          refine (hopened job).conseq (fun st hst => ?_) fun _ _ hst => hst
          obtain ⟨_, ⟨⟩, hst, hfind⟩ := hst
          exact ⟨fun j hj _ => hst j hj, hfind, trivial⟩

theorem saveResults_underway {job : CollectionJob} (counters : Persisted) :
    Db.Ensures (fun st => st.Underway job.id ∧ st.jobs.find? job.id = some job)
      (JobRepository.saveResults job.id counters) fun _ st =>
        st.Underway job.id ∧ st.jobs.find? job.id = some job ∧
          ∃ r ∈ st.results, r.jobId = job.id := by
  refine .bind (.query _) fun found => ?_
  cases found with
  | none =>
      refine .bind (Db.insert_triple fun st hst => ⟨trivial, ?_⟩) fun _ => .pure fun _ hst => hst
      refine ⟨fun j hj hne => (hst.1.1 j hj hne).mono fun r hr => ⟨r, ?_, rfl⟩, hst.1.2,
        _, Table.mem_put.mpr (.inl rfl), rfl⟩
      have hlt : r.id < st.results.next := Table.key_lt_next hr
      exact Table.mem_put.mpr (.inr ⟨hr, hlt.ne⟩)
  | some row =>
      refine .execute fun st hst => ⟨trivial, ?_⟩
      have hrow := Table.mem_select.mp (List.mem_of_head? hst.2.symm)
      have hthere : ({ row with counters } : CollectionJobResult) ∈
          st.results.replace { row with counters } :=
        Table.mem_replace.mpr (.inl ⟨rfl, row, hrow.1, rfl⟩)
      refine ⟨fun j hj hne => (hst.1.1 j hj hne).mono fun r hr => ?_, hst.1.2, _, hthere,
        by simpa using hrow.2⟩
      by_cases hid : r.id = row.id
      · exact ⟨_, hthere, by rw [Table.eq_of_key hr hrow.1 hid]⟩
      · exact ⟨r, Table.mem_replace.mpr (.inr ⟨hr, hid⟩), rfl⟩

theorem closeRun_coherent {job : CollectionJob} (hstarted : job.startedAt.isSome = true)
    (ending : Except PyError Unit) (now : Instant) :
    Db.Ensures (fun st => st.Underway job.id ∧ st.jobs.find? job.id = some job)
      (closeRun job ending now) fun _ => Store.JobsCoherent := by
  cases ending with
  | error e =>
      cases e with
      | sourceError message =>
          refine .bind .counters fun _ => .bind (saveResults_underway _) fun _ => ?_
          exact .bind (assign_underway (fun results => ∃ r ∈ results, r.jobId = job.id) rfl)
            fun _ => .raise _
      | valueError => exact .raise _
  | ok _ =>
      refine .bind .counters fun _ => .bind (saveResults_underway _) fun _ => ?_
      refine .bind (assign_underway (fun results => ∃ r ∈ results, r.jobId = job.id) rfl)
        fun finished => .pure fun st hst => ?_
      obtain ⟨-, hunder, hrow, hresult⟩ := hst
      exact Store.Underway.settled hunder hrow ⟨hstarted, rfl, rfl, hresult⟩

theorem runCollection_coherent (config : SourceConfig) (jobId : Option Nat)
    (collection : Collection) (startedAt finishedAt : Instant) :
    Db.Ensures Store.JobsCoherent
      (runCollection env config jobId collection startedAt finishedAt) fun _ =>
        Store.JobsCoherent := by
  refine .bind (openRun_underway config jobId startedAt) fun opened => ?_
  obtain ⟨source, job, suppressions⟩ := opened
  by_cases hstarted : job.startedAt.isSome = true
  · have hitems : Db.Ensures (fun st => st.Underway job.id ∧ st.jobs.find? job.id = some job)
        (Txn.attemptEach (processItem env source config job.id suppressions) RunStats.countError
          collection.items)
        fun _ st => st.Underway job.id ∧ st.jobs.find? job.id = some job := by
      have hkept (st : Store) (w : Write)
          (hst : st.Underway job.id ∧ st.jobs.find? job.id = some job) (hw : w.OfRecords) :
          (w.apply st).Underway job.id ∧ (w.apply st).jobs.find? job.id = some job := by
        obtain ⟨hjobs, hresults⟩ := Write.elsewhere_of_records hw st
        unfold Store.Underway
        rw [hjobs, hresults]
        exact hst
      exact (Txn.Triple.attemptEach _ hkept (fun item => (Txn.Triple.composed
        (processItem_composed env source config job.id suppressions item) hkept).forget) _).allow
          fun _ _ _ => trivial
    exact (Txn.Triple.bind hitems fun _ => closeRun_coherent hstarted _ _).conseq
      (fun _ hst => ⟨hst.1, hst.2.1⟩) fun _ _ hst => hst
  · intro s hs
    exact absurd hs.2.2 hstarted

theorem Transaction.program_coherent (t : Transaction) :
    Db.Ensures Store.JobsCoherent (t.program env) fun _ => Store.JobsCoherent := by
  have hupsert (config : SourceConfig) : Db.Ensures Store.JobsCoherent
      (SourceRepository.upsert config.name config.type config.priority config.enabled
        config.options) fun _ => Store.JobsCoherent :=
    .elsewhere (upsert_ofSources config) (fun _ => Write.elsewhere_of_sources)
      fun jobs results => ∀ j ∈ jobs, j.Coherent results
  cases t with
  | syncSources configs =>
      refine .bind ?_ fun _ => .pure fun _ hst => hst
      induction configs with
      | nil => exact .pure fun _ hst => hst
      | cons config configs ih =>
          exact .bind (hupsert config) fun _ => .bind ih fun _ => .pure fun _ hst => hst
  | collect config jobId collection startedAt finishedAt =>
      exact runCollection_coherent config jobId collection startedAt finishedAt
  | enqueue config now =>
      refine .bind (.bind (hupsert config) fun source => create_coherent source.id now)
        fun _ => .pure fun _ hst => hst.1
  | enqueueIfIdle config now =>
      refine .bind (.bind (hupsert config) fun source => ?_) fun _ => .pure fun _ hst => hst
      refine .bind (.query _) fun _ => .bind (.query _) fun active => ?_
      cases active with
      | some _ => exact .pure fun _ hst => hst.1.1
      | none =>
          refine .bind ((create_coherent source.id now).conseq (fun _ hst => hst.1.1)
            fun _ _ hst => hst) fun _ => .pure fun _ hst => hst.1

end Run

namespace Store

variable {st : Store}

theorem JobsCoherent.perform (h : st.JobsCoherent) (t : Transaction) (fault : Option Nat) :
    (t.perform env st fault).JobsCoherent := by
  unfold Transaction.perform
  cases hcommit : Txn.commit (t.program env) (Transaction.session st fault) with
  | ok st' =>
      obtain ⟨_, hst'⟩ := t.program_coherent.commits (s := Transaction.session st fault) h hcommit
      exact hst'
  | error e => exact h

theorem JobsCoherent.claim (h : st.JobsCoherent) (worker : Text) (now : Instant)
    (locked : List Nat) : (Queue.claim st worker now locked).2.JobsCoherent := by
  unfold Queue.claim
  cases hnext : Queue.nextJob st now locked with
  | none => exact h
  | some job =>
      obtain ⟨hjob, hrunnable⟩ := Table.mem_select.mp (mem_ranked.mp (List.mem_of_head? hnext))
      refine h.updateJobs fun j hj hid => ?_
      obtain rfl : j = job := Table.eq_of_key hj hjob (by simpa using hid)
      exact (h j hj).claimed (CollectionJob.pending_of_runnable hrunnable) worker now

theorem JobsCoherent.fail (h : st.JobsCoherent) (job : ClaimedJob) (error : Text)
    (now : Instant) (jitter : ℚ) : (Queue.fail st job error now jitter).2.JobsCoherent := by
  unfold Queue.fail
  split
  · exact h.updateJobs fun j _ _ => j.coherent_requeued error _
  · exact h.updateJobs fun j _ _ => j.coherent_failed error now

theorem JobsCoherent.heartbeat (h : st.JobsCoherent) (jobId : Nat) (now : Instant) :
    (Queue.heartbeat st jobId now).JobsCoherent := by
  refine h.updateJobs fun j hj hrow => (h j hj).beaten ?_ now
  rw [Bool.and_eq_true] at hrow
  exact CollectionJob.running_iff.mp hrow.2

theorem JobsCoherent.recoverStale (h : st.JobsCoherent) (staleAfter : ℚ)
    (now failedAt : Instant) : (Queue.recoverStale st staleAfter now failedAt).2.JobsCoherent := by
  have hswept : (Queue.updateJobs st
      (fun j => (j.running && j.silent (now - timedelta staleAfter)) && j.exhausted)
      (fun j => j.failed stoppedResponding failedAt)
      fun j => j.failed_id stoppedResponding failedAt).JobsCoherent :=
    h.updateJobs fun j _ _ => j.coherent_failed stoppedResponding failedAt
  refine hswept.updateJobs fun j hj hrow => (hswept j hj).released ?_
  rw [Bool.and_eq_true] at hrow
  exact CollectionJob.running_iff.mp hrow.1

theorem JobsCoherent.step (h : st.JobsCoherent) (op : Operation) :
    (op.step env st).JobsCoherent := by
  cases op with
  | transaction t fault => exact h.perform t fault
  | claim worker now locked => exact h.claim worker now locked
  | heartbeat jobId now => exact h.heartbeat jobId now
  | fail job error now jitter => exact h.fail job error now jitter
  | recoverStale staleAfter now failedAt => exact h.recoverStale staleAfter now failedAt
  | deleteLead leadId suppressed =>
      exact deleteLeadRoute_keeps env (fun _ _ hst => hst) (fun _ _ hst => hst) h leadId suppressed
  | purge cutoff => exact Store.purge_keeps (fun _ _ hst => hst) h cutoff
  | suppress kind value reason =>
      obtain ⟨suppressions, hkeep⟩ := SuppressionRepository.add_keeps env st kind value reason
      change (SuppressionRepository.add env st kind value reason).JobsCoherent
      rw [hkeep]
      exact h
  | unsuppress suppressionId => exact h
  | removeValue kind value =>
      exact SuppressionRepository.removeValue_keeps env (fun _ _ hst => hst) h kind value

theorem Reached.jobsCoherent (h : st.Reached env) : st.JobsCoherent := by
  obtain ⟨ops, rfl⟩ := h
  refine execute_invariant (I := JobsCoherent) ?_ (fun _ op hst => hst.step op) ops
  exact fun j hj => absurd hj (Table.not_mem_empty j)

end Store

/-- After transactions that do not overlap the columns of a job agree with its status, and a
completed job has exactly one result. -/
theorem job_rows_are_coherent {st : Store} (h : st.Reached env) :
    ∀ j ∈ st.jobs, j.Coherent st.results ∧
      (j.status = .completed → ∃! r, r ∈ st.results ∧ r.jobId = j.id) := by
  intro j hj
  have hcoherent := h.jobsCoherent j hj
  refine ⟨hcoherent, fun hcompleted => ?_⟩
  simp only [CollectionJob.Coherent, hcompleted] at hcoherent
  obtain ⟨r, hr, hid⟩ := hcoherent.2.2.2
  refine ⟨r, ⟨hr, hid⟩, fun r' hr' => ?_⟩
  exact h.consistent.resultOnce r' hr'.1 r hr (hr'.2.trans hid.symm)

def claimedAgain : List Operation :=
  collectedOnce ++ [.fail ⟨1, 1, "csv".toList, 1, 3⟩ "SourceError: gone".toList 5 0,
    .claim "two".toList 20000000 []]

theorem job_rows_are_coherent_claimed :
    ∃ j ∈ (execute (Operation.step .ascii) .empty claimedAgain).jobs, j.status = .running ∧
      j.Coherent (execute (Operation.step .ascii) .empty claimedAgain).results := by
  obtain ⟨j, hj, hrunning⟩ :
      ∃ j ∈ (execute (Operation.step .ascii) .empty claimedAgain).jobs, j.status = .running := by
    decide +kernel
  exact ⟨j, hj, hrunning, (job_rows_are_coherent ⟨claimedAgain, rfl⟩ j hj).1⟩

end LeadPipe
