import LeadPipe.Framework.Tally
import LeadPipe.Pipeline.Ingest

/-!
# Which tables a run writes

The pipeline is put together from statements, and the statements of one record write source
records, leads and links only. What a run does to the session it is given, and to the other
tables, follows from that without looking at any record.
-/

namespace LeadPipe

open Framework

variable (env : Platform)

namespace Write

/-- The write is to `source_records`, `leads` or `lead_merges`. -/
def OfRecords : Write → Prop
  | insertRecord _ | updateRecord _ | claimRecord _ _ => True
  | insertLead _ | updateLead _ => True
  | insertMerge _ | updateMerge _ => True
  | _ => False

/-- The write is to `sources`, `collection_jobs` or `collection_job_results`. -/
def OfRuns : Write → Prop
  | insertSource _ | updateSource _ => True
  | insertJob _ | updateJob _ _ => True
  | insertResult _ | updateResult _ => True
  | _ => False

theorem OfRecords.jobs {w : Write} (h : w.OfRecords) (st : Store) :
    (w.apply st).jobs = st.jobs := by
  cases w <;> first | rfl | exact h.elim

end Write

/-- The changes of the counters that a record can cause: all of them add. -/
def RunStats.Adds (f : RunStats → RunStats) : Prop := ∀ t n : RunStats, f (t + n) = t + f n

section

variable {P : Write → Prop} {N : (RunStats → RunStats) → Prop} {C : (α : Type) → Db α → Prop}

theorem Db.insert_rules (hC : Txn.Rules P N C) {ρ : Type} (next : Store → Nat)
    (write : ρ → Write) (row : Nat → ρ) (h : ∀ r, P (write r)) :
    C ρ (Db.insert next write row) :=
  hC.bind (hC.peek _) fun _ => hC.bind (hC.execute (h _)) fun _ => hC.pure _

theorem Db.insert_composed {ρ : Type} (next : Store → Nat) (write : ρ → Write) (row : Nat → ρ)
    (h : ∀ r, P (write r)) : Txn.Composed P (Db.insert next write row) :=
  Db.insert_rules (Txn.Composed.rules P fun _ => True) next write row h

end

section Record

variable {C : (α : Type) → Db α → Prop} (hC : Txn.Rules Write.OfRecords RunStats.Adds C)

include hC

theorem upsertRecord_rules (sourceId : Nat) (lead : NormalizedLead)
    (validation : LeadValidation) (jobId : Option Nat) (externalId : Option Text) :
    C _ (SourceRecordRepository.upsert env sourceId lead validation jobId externalId) := by
  unfold SourceRecordRepository.upsert
  refine hC.bind (hC.query _) fun found => ?_
  cases found with
  | none => exact hC.bind (Db.insert_rules hC _ _ _ fun _ => trivial) fun _ => hC.pure _
  | some record => exact hC.bind (hC.execute trivial) fun _ => hC.pure _

theorem link_rules (leadId recordId : Nat) (rule : Text) (confidence : ℚ)
    (needsReview claim : Bool) :
    C _ (LeadRepository.link leadId recordId rule confidence needsReview claim) := by
  unfold LeadRepository.link
  refine hC.bind (hC.query _) fun found => ?_
  cases found with
  | some existing => exact hC.execute trivial
  | none =>
      have hinsert (row : Nat → LeadMerge) : C _ (do
          let _ ← Db.insert (fun st => st.merges.next) .insertMerge row : Db Unit) :=
        hC.bind (Db.insert_rules hC _ _ _ fun _ => trivial) fun _ => hC.pure _
      cases claim with
      | true => exact hC.bind (hC.execute trivial) fun _ => hinsert _
      | false => exact hinsert _

theorem remerge_rules (leadRow : Lead) (incoming : NormalizedLead) (recordId : Nat)
    (priority : Int) : C _ (remerge env leadRow incoming recordId priority) := by
  unfold remerge
  refine hC.bind (hC.query _) fun stored => ?_
  cases merge (withIncoming stored incoming recordId priority) with
  | none => exact hC.raise _
  | some merged => exact hC.bind (hC.lift _) fun _ => hC.execute trivial

theorem bestMatch_rules (lead : NormalizedLead) (exclude : Option Nat) :
    C _ (bestMatch env lead exclude) := by
  refine hC.bind ?_ fun _ => hC.pure _
  unfold LeadRepository.findCandidates
  split
  · exact hC.query _
  · exact hC.pure _

theorem ownLead_rules (record : SourceRecord) : C _ (ownLead record) := by
  unfold ownLead
  split
  · exact hC.query _
  · exact hC.pure _

theorem place_rules (call : IngestCall) (lead : NormalizedLead) (validation : LeadValidation)
    (record : SourceRecord) (own : Option Lead) (best : Option (Lead × MatchResult)) :
    C _ (place env call lead validation record own best) := by
  have hattach : C _ (place.attach env call lead validation record own) := by
    unfold place.attach
    cases own with
    | some own =>
        exact hC.bind (remerge_rules env hC own lead _ _) fun _ => hC.note fun _ _ => rfl
    | none =>
        dsimp only
        split
        · exact hC.raise _
        · exact hC.bind (Db.insert_rules hC _ _ _ fun _ => trivial) fun _ =>
            hC.bind (link_rules hC _ _ _ _ _ _) fun _ => hC.note fun _ _ => rfl
  unfold place
  split
  · split
    · exact hC.bind (remerge_rules env hC _ lead _ _) fun _ =>
        hC.bind (link_rules hC _ _ _ _ _ _) fun _ => hC.note fun _ _ => rfl
    · exact hattach
  · exact hattach

theorem flag_rules (record : SourceRecord) (best : Option (Lead × MatchResult)) :
    C _ (flag record best) := by
  unfold flag
  split
  · split
    · exact hC.bind (link_rules hC _ _ _ _ _ _) fun _ => hC.note fun _ _ => rfl
    · exact hC.pure _
  · exact hC.pure _

theorem ingest_rules (call : IngestCall) : C _ (ingest env call) := by
  have hgraded (status : ValidationStatus) :
      RunStats.Adds fun stats => stats.graded status := by
    intro t n
    cases status <;> rfl
  unfold ingest
  refine hC.bind (hC.note fun _ _ => rfl) fun _ => ?_
  split
  · exact hC.note fun _ _ => rfl
  · exact hC.bind (hC.lift _) fun validation => hC.bind (hC.note (hgraded _)) fun _ =>
      hC.bind (upsertRecord_rules env hC _ _ _ _ _) fun _ =>
      hC.bind (ownLead_rules hC _) fun _ => hC.bind (bestMatch_rules env hC _ _) fun _ =>
      hC.bind (place_rules env hC _ _ _ _ _ _) fun _ => flag_rules hC _ _

theorem processItem_rules (source : Source) (config : SourceConfig) (jobId : Nat)
    (suppressions : SuppressionList) (item : CollectedItem) :
    C _ (processItem env source config jobId suppressions item) := by
  cases item with
  | error message => exact hC.note fun _ _ => rfl
  | record raw => exact ingest_rules env hC _

end Record

theorem processItem_composed (source : Source) (config : SourceConfig) (jobId : Nat)
    (suppressions : SuppressionList) (item : CollectedItem) :
    Txn.Composed Write.OfRecords (processItem env source config jobId suppressions item) :=
  processItem_rules env (Txn.Composed.rules _ _) source config jobId suppressions item

theorem processItem_tallies (source : Source) (config : SourceConfig) (jobId : Nat)
    (suppressions : SuppressionList) (item : CollectedItem) :
    Txn.Tallies (processItem env source config jobId suppressions item) :=
  processItem_rules env (Txn.Tallies.rules _) source config jobId suppressions item

theorem assign_composed (loaded assigned : CollectionJob) :
    Txn.Composed Write.OfRuns (JobRepository.assign loaded assigned) := by
  unfold JobRepository.assign
  dsimp only
  split
  · exact .bind (.execute trivial) fun _ => .pure _
  · exact .pure _

theorem upsertSource_composed (config : SourceConfig) :
    Txn.Composed Write.OfRuns (SourceRepository.upsert config.name config.type config.priority
      config.enabled config.options) := by
  unfold SourceRepository.upsert
  refine .bind (.query _) fun found => ?_
  cases found with
  | none => exact Db.insert_composed _ _ _ fun _ => trivial
  | some source =>
      dsimp only
      split
      · exact .bind (.execute trivial) fun _ => .pure _
      · exact .pure _

theorem openRun_composed (config : SourceConfig) (jobId : Option Nat) (now : Instant) :
    Txn.Composed Write.OfRuns (openRun config jobId now) := by
  refine .bind (upsertSource_composed config) fun source => ?_
  have hopened (job : CollectionJob) : Txn.Composed Write.OfRuns (do
      let job ← JobRepository.markRunning job now
      let suppressions ← SuppressionRepository.load
      return (source, job, suppressions) : Db (Source × CollectionJob × SuppressionList)) :=
    .bind (assign_composed _ _) fun _ => .bind (.query _) fun _ => .pure _
  cases jobId with
  | some id =>
    refine .bind (.query _) fun found => ?_
    cases found with
    | none => exact .raise _
    | some job => exact hopened job
  | none =>
    refine .bind (.bind (Db.insert_composed _ _ _ fun _ => trivial) fun _ => .pure _) fun found => ?_
    cases found with
    | none => exact .raise _
    | some job => exact hopened job

theorem closeRun_composed (job : CollectionJob) (ending : Except PyError Unit) (now : Instant) :
    Txn.Composed Write.OfRuns (closeRun job ending now) := by
  have hsave (counters : Persisted) :
      Txn.Composed Write.OfRuns (JobRepository.saveResults job.id counters) := by
    refine .bind (.query _) fun found => ?_
    cases found with
    | none => exact .bind (Db.insert_composed _ _ _ fun _ => trivial) fun _ => .pure _
    | some row => exact .execute trivial
  rcases ending with e | a
  · cases e with
    | valueError => exact .raise _
    | sourceError message =>
        exact .bind .counters fun _ => .bind (hsave _) fun _ =>
          .bind (assign_composed _ _) fun _ => .raise _
  · exact .bind .counters fun _ => .bind (hsave _) fun _ =>
      .bind (assign_composed _ _) fun _ => .pure _

namespace JobRepository

/-- The writes of a flush of an assigned job. -/
def flushWrites (loaded assigned : CollectionJob) : List Write :=
  let changes := JobChanges.between loaded assigned
  if changes.isEmpty then [] else [.updateJob loaded.id changes]

/-- The job object after `mark_running`. -/
def marked (job : CollectionJob) (now : Instant) : CollectionJob :=
  { job with status := .running, startedAt := some now }

/-- The job object after `mark_finished`. -/
def finished (job : CollectionJob) (status : JobStatus) (error : Option Text)
    (now : Instant) : CollectionJob :=
  { job with status := status, error := error, finishedAt := some now }

variable {s : Session Store Write RunStats}

theorem assign_healthy (h : s.Healthy) (loaded assigned : CollectionJob) :
    assign loaded assigned s = (.ok assigned, s.emit (flushWrites loaded assigned)) := by
  unfold assign flushWrites
  dsimp only
  by_cases he : (JobChanges.between loaded assigned).isEmpty = true
  · simp only [he, Bool.not_true, Bool.false_eq_true, if_false, if_true]
    exact (Txn.pure_run assigned s).trans (by simp [Session.emit])
  · simp only [he, Bool.not_false, if_true, if_false, Bool.false_eq_true]
    rw [Txn.bind_ok (Txn.execute_healthy h _)]
    rfl

theorem results_flushWrites (st : Store) (loaded assigned : CollectionJob) :
    (Session.replay (flushWrites loaded assigned) st).results = st.results := by
  unfold flushWrites
  dsimp only
  split <;> rfl

/-- A flush leaves the row as it was assigned, when it was loaded as it is stored. -/
theorem find?_flushWrites (st : Store) (loaded assigned : CollectionJob)
    (hj : st.jobs.find? loaded.id = some loaded)
    (hsame : assigned = { loaded with
      status := assigned.status, error := assigned.error, startedAt := assigned.startedAt,
      finishedAt := assigned.finishedAt }) (k : Nat) :
    (Session.replay (flushWrites loaded assigned) st).jobs.find? k =
      if k = loaded.id then some assigned else st.jobs.find? k := by
  have happly : (JobChanges.between loaded assigned).apply loaded = assigned := by
    rw [hsame]
    simp [JobChanges.apply, JobChanges.between, JobChanges.changed_getD]
  unfold flushWrites
  dsimp only
  split
  · rename_i hempty
    have hnone : JobChanges.between loaded assigned = ⟨none, none, none, none⟩ := by
      simpa [JobChanges.isEmpty] using hempty
    rw [hnone] at happly
    have heq : loaded = assigned := happly
    rw [Session.replay_nil]
    by_cases hk : k = loaded.id
    · rw [if_pos hk, hk, hj, heq]
    · rw [if_neg hk]
  · have hrow := Table.find?_update st.jobs (fun j => j.id == loaded.id)
      (JobChanges.between loaded assigned).apply (JobChanges.apply_id _) k
    refine hrow.trans ?_
    by_cases hk : k = loaded.id
    · rw [if_pos hk, hk, hj, Option.map_some, beq_self_eq_true, if_pos rfl, happly]
    · rw [if_neg hk]
      cases hother : st.jobs.find? k with
      | none => rfl
      | some j =>
          have hid : j.id = k := (Table.find?_eq_some.mp hother).2
          simp [hid, hk]

end JobRepository

section Around

variable {s : Session Store Write RunStats}

theorem openRun_of_upsert (h : s.Healthy) {config : SourceConfig} {source : Source}
    {ws : List Write} (hws : ∀ w ∈ ws, w.OfSources)
    (hup : SourceRepository.upsert config.name config.type config.priority config.enabled
      config.options s = (.ok source, s.emit ws))
    {jobId : Nat} {job : CollectionJob} (hj : s.view.jobs.find? jobId = some job) (now : Instant) :
    openRun config (some jobId) now s =
      (.ok (source, JobRepository.marked job now, SuppressionRepository.list s.view),
        s.emit (ws ++ JobRepository.flushWrites job (JobRepository.marked job now))) := by
  obtain ⟨sources, hview⟩ := Store.replay_sources hws s.view
  have hget : JobRepository.get jobId (s.emit ws) = (.ok (some job), s.emit ws) := by
    unfold JobRepository.get
    rw [Txn.query_healthy (h.emit _), Session.emit_view, hview, hj]
  have hmark : JobRepository.markRunning job now (s.emit ws) = _ :=
    JobRepository.assign_healthy (h.emit _) job (JobRepository.marked job now)
  unfold openRun
  rw [Txn.bind_ok hup]
  dsimp only
  rw [Txn.bind_ok hget]
  dsimp only
  rw [Txn.bind_ok hmark]
  have hload (s : Session Store Write RunStats) (h : s.Healthy) :
      SuppressionRepository.load s = (.ok (SuppressionRepository.list s.view), s) :=
    Txn.query_healthy h SuppressionRepository.list
  rw [Txn.bind_ok (hload _ ((h.emit _).emit _)), Txn.pure_run, Session.emit_emit]
  have hsuppressions : (s.emit (ws ++ JobRepository.flushWrites job
      (JobRepository.marked job now))).view.suppressions = s.view.suppressions := by
    rw [Session.emit_view, Session.replay_append, hview]
    unfold JobRepository.flushWrites
    dsimp only
    split <;> rfl
  simp only [SuppressionRepository.list, SuppressionRepository.values, hsuppressions]

theorem openRun_run (h : s.Healthy) (config : SourceConfig) {jobId : Nat} {job : CollectionJob}
    (hj : s.view.jobs.find? jobId = some job) (now : Instant) :
    ∃ source ws suppressions, openRun config (some jobId) now s =
        (.ok (source, JobRepository.marked job now, suppressions),
          s.emit (ws ++ JobRepository.flushWrites job (JobRepository.marked job now))) ∧
      (∀ w ∈ ws, w.OfSources) ∧
      suppressions = SuppressionRepository.list s.view := by
  obtain ⟨source, ws, hup, hws⟩ := SourceRepository.upsert_run h config.name config.type
    config.priority config.enabled config.options
  exact ⟨source, ws, _, openRun_of_upsert h hws hup hj now, hws, rfl⟩

theorem openRun_missing (h : s.Healthy) (config : SourceConfig) {jobId : Nat}
    (hj : s.view.jobs.find? jobId = none) (now : Instant) :
    ∃ e s', openRun config (some jobId) now s = (.error e, s') := by
  obtain ⟨source, ws, hup, hws⟩ := SourceRepository.upsert_run h config.name config.type
    config.priority config.enabled config.options
  obtain ⟨sources, hview⟩ := Store.replay_sources hws s.view
  have hget : JobRepository.get jobId (s.emit ws) = (.ok none, s.emit ws) := by
    unfold JobRepository.get
    rw [Txn.query_healthy (h.emit _), Session.emit_view, hview, hj]
  unfold openRun
  rw [Txn.bind_ok hup]
  dsimp only
  rw [Txn.bind_ok hget]
  exact ⟨_, _, rfl⟩

theorem openRun_creates (h : s.Healthy) (config : SourceConfig) (now : Instant) :
    ∃ source job suppressions s', openRun config none now s =
        (.ok (source, job, suppressions), s') ∧ job.id = s.view.jobs.next := by
  obtain ⟨source, ws, hup, hws⟩ := SourceRepository.upsert_run h config.name config.type
    config.priority config.enabled config.options
  obtain ⟨sources, hview⟩ := Store.replay_sources hws s.view
  have hcreate := Db.insert_healthy (h.emit ws) (fun st => st.jobs.next) Write.insertJob
    fun id => JobRepository.blank id source.id JobRepository.defaultMaxAttempts now
  have hsome : (some <$> JobRepository.create source.id now : Db (Option CollectionJob))
      (s.emit ws) = _ := Txn.bind_ok hcreate
  have hmark (loaded : CollectionJob) (s : Session Store Write RunStats) (h : s.Healthy) :
      JobRepository.markRunning loaded now s = _ :=
    JobRepository.assign_healthy h loaded (JobRepository.marked loaded now)
  have hload (s : Session Store Write RunStats) (h : s.Healthy) :
      SuppressionRepository.load s = (.ok (SuppressionRepository.list s.view), s) :=
    Txn.query_healthy h SuppressionRepository.list
  unfold openRun
  rw [Txn.bind_ok hup]
  dsimp only
  rw [Txn.bind_ok hsome]
  dsimp only
  rw [Txn.bind_ok (hmark _ _ ((h.emit _).emit _)),
    Txn.bind_ok (hload _ (((h.emit _).emit _).emit _)), Txn.pure_run]
  refine ⟨_, _, _, _, rfl, ?_⟩
  change (s.emit ws).view.jobs.next = s.view.jobs.next
  rw [Session.emit_view, hview]

/-- A run that is opened, for a stored job or a new one: the row of its source is written, and
then only jobs are. -/
theorem openRun_opens (h : s.Healthy) {config : SourceConfig} {upserted : Source}
    {ws : List Write}
    (hup : SourceRepository.upsert config.name config.type config.priority config.enabled
      config.options s = (.ok upserted, s.emit ws))
    {jobId : Option Nat} {now : Instant} {source : Source} {job : CollectionJob}
    {suppressions : SuppressionList} {s' : Session Store Write RunStats}
    (hrun : openRun config jobId now s = (.ok (source, job, suppressions), s')) :
    source = upserted ∧ suppressions = SuppressionRepository.list s'.view ∧
      ∃ vs, s' = s.emit (ws ++ vs) ∧ ∀ w ∈ vs, w.OfJobs := by
  have hopened (vs : List Write) (hvs : ∀ w ∈ vs, w.OfJobs) (loaded : CollectionJob)
      (hrest : (do
        let job ← JobRepository.markRunning loaded now
        let suppressions ← SuppressionRepository.load
        return (upserted, job, suppressions) : Db (Source × CollectionJob × SuppressionList))
          (s.emit (ws ++ vs)) = (.ok (source, job, suppressions), s')) :
      source = upserted ∧ suppressions = SuppressionRepository.list s'.view ∧
        ∃ vs, s' = s.emit (ws ++ vs) ∧ ∀ w ∈ vs, w.OfJobs := by
    have hmark : JobRepository.markRunning loaded now (s.emit (ws ++ vs)) = _ :=
      JobRepository.assign_healthy (h.emit _) loaded (JobRepository.marked loaded now)
    have hload (s : Session Store Write RunStats) (h : s.Healthy) :
        SuppressionRepository.load s = (.ok (SuppressionRepository.list s.view), s) :=
      Txn.query_healthy h SuppressionRepository.list
    rw [Txn.bind_ok hmark, Txn.bind_ok (hload _ ((h.emit _).emit _)), Txn.pure_run,
      Session.emit_emit, List.append_assoc] at hrest
    obtain ⟨hresult, rfl⟩ := Prod.mk.inj hrest
    obtain ⟨hsource, hjob⟩ := Prod.mk.inj (Except.ok.inj hresult)
    refine ⟨hsource.symm, (Prod.mk.inj hjob).2.symm, _, rfl, fun w hw => ?_⟩
    rcases List.mem_append.mp hw with hw | hw
    · exact hvs w hw
    · unfold JobRepository.flushWrites at hw
      dsimp only at hw
      split at hw
      · cases hw
      · rw [List.mem_singleton.mp hw]
        trivial
  unfold openRun at hrun
  rw [Txn.bind_ok hup] at hrun
  cases jobId with
  | some id =>
      have hget : JobRepository.get id (s.emit ws) = _ := Txn.query_healthy (h.emit ws) _
      dsimp only at hrun
      rw [Txn.bind_ok hget] at hrun
      cases hfind : (s.emit ws).view.jobs.find? id with
      | none =>
          rw [hfind] at hrun
          cases hrun
      | some loaded =>
          rw [hfind] at hrun
          refine hopened [] (by simp) loaded ?_
          rw [List.append_nil]
          exact hrun
  | none =>
      have hcreate := Db.insert_healthy (h.emit ws) (fun st => st.jobs.next) Write.insertJob
        fun id => JobRepository.blank id upserted.id JobRepository.defaultMaxAttempts now
      have hsome : (some <$> JobRepository.create upserted.id now : Db (Option CollectionJob))
          (s.emit ws) = _ := Txn.bind_ok hcreate
      dsimp only at hrun
      rw [Txn.bind_ok hsome, Session.emit_emit] at hrun
      exact hopened _ (by simp [Write.OfJobs]) _ hrun

theorem saveResults_run (h : s.Healthy) (jobId : Nat) (counters : Persisted) :
    ∃ w, JobRepository.saveResults jobId counters s = (.ok (), s.emit [w]) ∧
      ((∃ row, w = .insertResult row) ∨ ∃ row, w = .updateResult row) ∧
      ∃ r ∈ (w.apply s.view).results, r.jobId = jobId := by
  unfold JobRepository.saveResults
  rw [Txn.bind_ok (Txn.query_healthy h _)]
  cases hr : JobRepository.resultOf s.view jobId with
  | none =>
      dsimp only
      rw [Txn.bind_ok (Db.insert_healthy h _ _ _)]
      exact ⟨_, rfl, .inl ⟨_, rfl⟩, _, Table.mem_put.mpr (.inl rfl), rfl⟩
  | some row =>
      have hrow := Table.mem_select.mp (List.mem_of_head? hr)
      have hjob : row.jobId = jobId := by simpa using hrow.2
      exact ⟨_, Txn.execute_healthy h _, .inr ⟨_, rfl⟩, { row with counters },
        Table.mem_replace.mpr (.inl ⟨rfl, row, hrow.1, rfl⟩), hjob⟩

theorem closeRun_run (h : s.Healthy) (job : CollectionJob) (now : Instant) :
    ∃ w, closeRun job (.ok ()) now s =
        (.ok (), s.emit (w :: JobRepository.flushWrites job
          (JobRepository.finished job .completed none now))) ∧
      ((∃ row, w = .insertResult row) ∨ ∃ row, w = .updateResult row) ∧
      ∃ r ∈ (w.apply s.view).results, r.jobId = job.id := by
  obtain ⟨w, hsave, hw⟩ := saveResults_run h job.id s.notes.persisted
  refine ⟨w, ?_, hw⟩
  have hfinish : JobRepository.markFinished job .completed none now (s.emit [w]) = _ :=
    JobRepository.assign_healthy (h.emit _) job
      (JobRepository.finished job .completed none now)
  unfold closeRun
  dsimp only
  rw [Txn.bind_ok (Txn.counters_run s)]
  rw [Txn.bind_ok hsave, Txn.bind_ok hfinish, Txn.pure_run, Session.emit_emit]
  rfl

theorem closeRun_closes (h : s.Healthy) (job : CollectionJob) (now : Instant) :
    ∃ s' jobs results, closeRun job (.ok ()) now s = (.ok (), s') ∧ s'.Healthy ∧
      s'.notes = s.notes ∧ s'.view = { s.view with jobs, results } := by
  obtain ⟨w, hclose, hw, -⟩ := closeRun_run h job now
  have hwrites : ∀ v ∈ w :: JobRepository.flushWrites job
      (JobRepository.finished job .completed none now), v.OfJobs := by
    intro v hv
    rcases List.mem_cons.mp hv with rfl | hv
    · rcases hw with ⟨row, rfl⟩ | ⟨row, rfl⟩ <;> trivial
    · unfold JobRepository.flushWrites at hv
      dsimp only at hv
      split at hv
      · cases hv
      · rw [List.mem_singleton.mp hv]
        trivial
  obtain ⟨jobs, results, hview⟩ := Store.replay_jobs hwrites s.view
  exact ⟨_, jobs, results, hclose, h.emit _, rfl, hview⟩

/-- With a working database what is raised is what the source raised. -/
theorem closeRun_reraises (h : s.Healthy) (job : CollectionJob) (message : Text)
    (now : Instant) :
    ∃ s', closeRun job (.error (.sourceError message)) now s =
      (.error (.raised (.sourceError message)), s') ∧ s'.notes = s.notes := by
  obtain ⟨w, hsave, -⟩ := saveResults_run h job.id s.notes.persisted
  have hfinish : JobRepository.markFinished job .failed (some message) now (s.emit [w]) = _ :=
    JobRepository.assign_healthy (h.emit _) job
      (JobRepository.finished job .failed (some message) now)
  unfold closeRun
  dsimp only
  rw [Txn.bind_ok (Txn.counters_run s), Txn.bind_ok hsave, Txn.bind_ok hfinish]
  exact ⟨_, rfl, rfl⟩

/-- In an invalid session there is no closing. -/
theorem closeRun_invalid (hs : s.invalid = true) (job : CollectionJob) (now : Instant) :
    ∃ s', closeRun job (.ok ()) now s = (.error .invalidated, s') := by
  have hstatement : (Txn.statement : Db Unit) s = (.error .invalidated, s) := by
    simp [Txn.statement, hs]
  have hquery {α : Type} (f : Store → α) : (Txn.query f : Db α) s = (.error .invalidated, s) :=
    Txn.bind_error hstatement
  refine ⟨s, ?_⟩
  unfold closeRun
  dsimp only
  rw [Txn.bind_ok (Txn.counters_run s)]
  exact Txn.bind_error (Txn.bind_error (hquery _))

theorem closeRun_ok {job : CollectionJob} {ending : Except PyError Unit} {now : Instant} {u : Unit}
    {s' : Session Store Write RunStats} (hquiet : s.fault = none)
    (hclose : closeRun job ending now s = (.ok u, s')) : s'.invalid = false := by
  cases hinvalid : s.invalid with
  | true =>
      have hquery {α : Type} (f : Store → α) : (Txn.query f : Db α) s = (.error .invalidated, s) :=
        Txn.bind_error (by simp [Txn.statement, hinvalid])
      cases ending with
      | ok done =>
          obtain ⟨s₁, hfailed⟩ := closeRun_invalid hinvalid job now
          cases hclose.symm.trans hfailed
      | error e =>
          cases e with
          | valueError => cases hclose
          | sourceError message =>
              have hfailed : closeRun job (.error (.sourceError message)) now s =
                  (.error .invalidated, s) := by
                unfold closeRun
                dsimp only
                rw [Txn.bind_ok (Txn.counters_run s)]
                exact Txn.bind_error (Txn.bind_error (hquery _))
              cases hclose.symm.trans hfailed
  | false =>
      have h : s.Healthy := ⟨hinvalid, hquiet⟩
      cases ending with
      | ok done =>
          obtain ⟨s₁, jobs, results, hclosed, hhealthy, -⟩ := closeRun_closes h job now
          obtain ⟨-, rfl⟩ := Prod.mk.inj (hclose.symm.trans hclosed)
          exact hhealthy.valid
      | error e =>
          cases e with
          | valueError => cases hclose
          | sourceError message =>
              obtain ⟨s₁, hfailed, -⟩ := closeRun_reraises h job message now
              cases hclose.symm.trans hfailed

end Around

end LeadPipe
