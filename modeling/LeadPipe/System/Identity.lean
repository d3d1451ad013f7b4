import LeadPipe.Framework.Continuity
import LeadPipe.System.Operations

/-!
# What a number stands for

A number that a row was given is never given to another: while the row is there, a lead keeps the
time it was first seen, a record its source and its key, a link its pair, a source its name and a
job its source, its time and its attempts, and what was deleted does not come back.
-/

namespace LeadPipe

open Framework

/-- A job may have had more attempts since. -/
structure CollectionJob.Onward (j j' : CollectionJob) : Prop where
  source : j'.sourceId = j.sourceId
  created : j'.createdAt = j.createdAt
  limit : j'.maxAttempts = j.maxAttempts
  attempts : j.attempts ≤ j'.attempts

instance CollectionJob.Onward.isPreorder : IsPreorder CollectionJob Onward where
  refl _ := ⟨rfl, rfl, rfl, le_rfl⟩
  trans _ _ _ h h' := ⟨h'.source.trans h.source, h'.created.trans h.created, h'.limit.trans h.limit,
    h.attempts.trans h'.attempts⟩

namespace Store

/-- The rows of the later state are those of the earlier one and new ones. -/
structure Continues (st st' : Store) : Prop where
  sources : Table.Continues (Table.Same Source.name) st.sources st'.sources
  records : Table.Continues (Table.Same fun r : SourceRecord => (r.sourceId, r.recordKey))
    st.records st'.records
  leads : Table.Continues (Table.Same Lead.firstSeenAt) st.leads st'.leads
  merges : Table.Continues (Table.Same fun m : LeadMerge => (m.leadId, m.sourceRecordId))
    st.merges st'.merges
  suppressions : Table.Continues (Table.Same id) st.suppressions st'.suppressions
  jobs : Table.Continues CollectionJob.Onward st.jobs st'.jobs
  results : Table.Continues (Table.Same CollectionJobResult.jobId) st.results st'.results

namespace Continues

theorem refl (st : Store) : st.Continues st :=
  ⟨.refl _, .refl _, .refl _, .refl _, .refl _, .refl _, .refl _⟩

theorem trans {st st' st'' : Store} (h : st.Continues st') (h' : st'.Continues st'') :
    st.Continues st'' where
  sources := h.sources.trans h'.sources
  records := h.records.trans h'.records
  leads := h.leads.trans h'.leads
  merges := h.merges.trans h'.merges
  suppressions := h.suppressions.trans h'.suppressions
  jobs := h.jobs.trans h'.jobs
  results := h.results.trans h'.results

variable {st : Store}

theorem putSource {row : Source} (hid : st.sources.next ≤ row.id) :
    st.Continues ((Write.insertSource row).apply st) :=
  { refl st with sources := .put hid }

theorem putRecord {row : SourceRecord} (hid : st.records.next ≤ row.id) :
    st.Continues ((Write.insertRecord row).apply st) :=
  { refl st with records := .put hid }

theorem putLead {row : Lead} (hid : st.leads.next ≤ row.id) :
    st.Continues ((Write.insertLead row).apply st) :=
  { refl st with leads := .put hid }

theorem putMerge {row : LeadMerge} (hid : st.merges.next ≤ row.id) :
    st.Continues ((Write.insertMerge row).apply st) :=
  { refl st with merges := .put hid }

theorem putJob {row : CollectionJob} (hid : st.jobs.next ≤ row.id) :
    st.Continues ((Write.insertJob row).apply st) :=
  { refl st with jobs := .put hid }

theorem putResult {row : CollectionJobResult} (hid : st.results.next ≤ row.id) :
    st.Continues ((Write.insertResult row).apply st) :=
  { refl st with results := .put hid }

theorem replaceSource {old row : Source} (hold : old ∈ st.sources) (hid : old.id = row.id)
    (hname : row.name = old.name) : st.Continues ((Write.updateSource row).apply st) :=
  { refl st with sources := .replace_of_mem hold hid hname }

theorem replaceRecord {old row : SourceRecord} (hold : old ∈ st.records) (hid : old.id = row.id)
    (hkey : (row.sourceId, row.recordKey) = (old.sourceId, old.recordKey)) :
    st.Continues ((Write.updateRecord row).apply st) :=
  { refl st with records := .replace_of_mem hold hid hkey }

theorem replaceLead {old row : Lead} (hold : old ∈ st.leads) (hid : old.id = row.id)
    (hseen : row.firstSeenAt = old.firstSeenAt) :
    st.Continues ((Write.updateLead row).apply st) :=
  { refl st with leads := .replace_of_mem hold hid hseen }

theorem replaceMerge {old row : LeadMerge} (hold : old ∈ st.merges) (hid : old.id = row.id)
    (hpair : (row.leadId, row.sourceRecordId) = (old.leadId, old.sourceRecordId)) :
    st.Continues ((Write.updateMerge row).apply st) :=
  { refl st with merges := .replace_of_mem hold hid hpair }

theorem replaceResult {old row : CollectionJobResult} (hold : old ∈ st.results)
    (hid : old.id = row.id) (hjob : row.jobId = old.jobId) :
    st.Continues ((Write.updateResult row).apply st) :=
  { refl st with results := .replace_of_mem hold hid hjob }

theorem claimRecord (st : Store) (recordId leadId : Nat) :
    st.Continues ((Write.claimRecord recordId leadId).apply st) := by
  have hsame : ∀ r ∈ st.records, (r.id == recordId) = true →
      Table.Same (fun r : SourceRecord => (r.sourceId, r.recordKey)) r
        { r with leadId := some leadId } := fun _ _ _ => rfl
  exact { refl st with records := .update hsame fun _ => rfl }

theorem updateJobs {p : CollectionJob → Bool} {change : CollectionJob → CollectionJob}
    (hchange : ∀ j, (change j).id = j.id)
    (honward : ∀ j ∈ st.jobs, p j = true → j.Onward (change j)) :
    st.Continues (Queue.updateJobs st p change hchange) :=
  { refl st with jobs := .update honward hchange }

theorem changeJob (st : Store) (jobId : Nat) (changes : JobChanges) :
    st.Continues ((Write.updateJob jobId changes).apply st) :=
  updateJobs changes.apply_id fun _ _ _ => ⟨rfl, rfl, rfl, le_rfl⟩

theorem deleteLead (st : Store) (leadId : Nat) : st.Continues (st.deleteLead leadId) :=
  { refl st with
    leads := .erase _ _
    records := .erase _ _
    merges := .erase _ _ }

theorem rolledBack (st view : Store) : st.Continues (st.rolledBack view) :=
  { refl st with
    sources := .reserve _ _
    records := .reserve _ _
    leads := .reserve _ _
    merges := .reserve _ _
    jobs := .reserve _ _
    results := .reserve _ _ }

section Record

variable {env : Platform} {call : IngestCall}

theorem upsertWrite (st : Store) (call : IngestCall) (validation : LeadValidation) :
    st.Continues ((st.upsertWrite env call validation).apply st) := by
  unfold Store.upsertWrite
  cases hfound : st.recordOf env call with
  | none => exact putRecord (by simp [Store.upserted, hfound, SourceRecordRepository.fill,
      SourceRecordRepository.blank])
  | some record =>
      refine replaceRecord (recordOf_some hfound).1 ?_ ?_
      · simp [Store.upserted, hfound, SourceRecordRepository.fill]
      · simp [Store.upserted, hfound, SourceRecordRepository.fill]

theorem linkWrites {st st' : Store} (hmerges : st'.merges = st.merges) (leadId recordId : Nat)
    (rule : Text) (confidence : ℚ) (needsReview claim : Bool) :
    st'.Continues (Session.replay
      (st.linkWrites leadId recordId rule confidence needsReview claim) st') := by
  unfold Store.linkWrites
  cases hfound : LeadRepository.linkBetween st leadId recordId with
  | some existing =>
      have hold : existing ∈ st'.merges := by
        rw [hmerges]
        exact (LeadRepository.linkBetween_some hfound).1
      exact replaceMerge hold rfl rfl
  | none =>
      cases claim with
      | false => exact putMerge (by rw [hmerges])
      | true =>
          refine (claimRecord st' recordId leadId).trans (putMerge ?_)
          rw [← hmerges]
          exact le_rfl

theorem flagWrites (st : Store) (best : Option (Lead × MatchResult)) (recordId : Nat) :
    st.Continues (Session.replay (st.flagWrites best recordId) st) := by
  unfold Store.flagWrites
  split
  · split
    · exact refl st
    · exact linkWrites rfl _ _ _ _ _ _
  · exact refl st

theorem remerged {leadRow row : Lead} {recordId : Nat} (hlead : leadRow ∈ st.leads)
    (hrow : st.remerged env call leadRow recordId = .ok row) :
    st.Continues ((Write.updateLead row).apply st) := by
  obtain ⟨merged, graded, -, -, rfl⟩ := (Store.remerged_ok env st call).mp hrow
  exact replaceLead hlead rfl rfl

theorem places {validation : LeadValidation} {ws : List Write}
    (hp : Places env st call validation ws) :
    ((st.upsertWrite env call validation).apply st).Continues
      (Session.replay ws ((st.upsertWrite env call validation).apply st)) := by
  have hleads := upsertWrite_leads env st call validation
  have hmerges := upsertWrite_merges env st call validation
  cases hp with
  | join decided rebuilds =>
      have hlead := (bestOf_some (decision_join decided).1).1
      rw [← hleads] at hlead
      refine (remerged hlead rebuilds).trans (linkWrites ?_ _ _ _ _ _ _)
      exact hmerges
  | refresh decided rebuilds =>
      have hlead := (ownOf_some (decision_refresh decided)).1
      rw [← hleads] at hlead
      exact remerged hlead rebuilds
  | found decided merges =>
      refine (putLead ?_).trans (linkWrites ?_ _ _ _ _ _ _)
      · rw [hleads]
        exact le_rfl
      · exact hmerges

theorem ingests {ws : List Write} (h : Ingests env st call ws) :
    st.Continues (Session.replay ws st) := by
  cases h with
  | suppressed => exact refl st
  | @placed validation placed flags unblocked validates hp flagged =>
      rw [← List.cons_append, Session.replay_append, flagged]
      exact ((upsertWrite st call validation).trans (places hp)).trans (flagWrites _ _ _)

theorem aborts {ws : List Write} (h : Aborts env st call ws) :
    st.Continues (Session.replay ws st) := by
  cases h with
  | ungraded => exact refl st
  | unmerged => exact upsertWrite st call _

end Record

end Continues

end Store

/-- Whatever the program writes, the rows go on. -/
abbrev Db.Continues {α : Type} (before : Store) (m : Db α) : Prop :=
  Txn.Upholds (fun st _ => before.Continues st) m (fun _ st _ => before.Continues st)
    fun st _ => before.Continues st

namespace Db.Continues

variable {before : Store} {α : Type}

theorem insert {next : Store → Nat} {write : α → Write} {row : Nat → α}
    (h : ∀ st : Store, st.Continues ((write (row (next st))).apply st)) :
    Db.Continues before (Db.insert next write row) := by
  refine Txn.Upholds.bind (.peek _) fun id => Txn.Upholds.bind
    (Q := fun _ st _ => before.Continues st) (.execute fun st _ hst => ?_) fun _ =>
      .pure fun _ _ hst => hst
  obtain ⟨hst, rfl⟩ := hst
  exact hst.trans (h st)

theorem upsertSource (config : SourceConfig) :
    Db.Continues before (SourceRepository.upsert config.name config.type config.priority
      config.enabled config.options) := by
  refine .bind (.query _) fun found => ?_
  cases found with
  | none =>
      refine (insert fun st => ?_).conseq (fun _ _ h => h.1) (fun _ _ _ h => h) fun _ _ h => h
      exact Store.Continues.putSource le_rfl
  | some source =>
      dsimp only
      split
      · refine Txn.Upholds.bind (Q := fun _ st _ => before.Continues st)
          (.execute fun st _ h => ?_) fun _ => .pure fun _ _ h => h
        have hsource : source ∈ st.sources :=
          (Table.mem_select.mp (List.mem_of_head? h.2.symm)).1
        exact h.1.trans (Store.Continues.replaceSource hsource rfl rfl)
      · exact .pure fun _ _ h => h.1

theorem createJob (sourceId : Nat) (now : Instant) :
    Db.Continues before (JobRepository.create sourceId now) :=
  insert fun _ => Store.Continues.putJob le_rfl

theorem assign (loaded assigned : CollectionJob) :
    Db.Continues before (JobRepository.assign loaded assigned) := by
  unfold JobRepository.assign
  dsimp only
  split
  · exact Txn.Upholds.bind (Q := fun _ st _ => before.Continues st)
      (.execute fun st _ h => h.trans (.changeJob st _ _)) fun _ => .pure fun _ _ h => h
  · exact .pure fun _ _ h => h

theorem saveResults (jobId : Nat) (counters : Persisted) :
    Db.Continues before (JobRepository.saveResults jobId counters) := by
  refine .bind (.query _) fun found => ?_
  cases found with
  | none =>
      have hinsert : Db.Continues before (Db.insert (fun st => st.results.next) .insertResult
          fun id => (⟨id, jobId, counters⟩ : CollectionJobResult)) :=
        insert fun _ => Store.Continues.putResult le_rfl
      exact .bind (hinsert.conseq (fun _ _ h => h.1) (fun _ _ _ h => h) fun _ _ h => h) fun _ =>
        .pure fun _ _ h => h
  | some row =>
      refine .execute fun st _ h => h.1.trans ?_
      have hrow : row ∈ st.results := (Table.mem_select.mp (List.mem_of_head? h.2.symm)).1
      exact Store.Continues.replaceResult hrow rfl rfl

theorem openRun (config : SourceConfig) (jobId : Option Nat) (now : Instant) :
    Db.Continues before (openRun config jobId now) :=
  (openRun_upholds (upsertSource config) (fun _ source => createJob source.id now)
    (fun _ _ _ _ _ h => h) (fun _ _ _ h => h) fun _ _ => assign _ _).conseq (fun _ _ h => h)
      (fun _ _ _ h => h.1) fun _ _ h => h

theorem closeRun (job : CollectionJob) (ending : Except PyError Unit) (now : Instant) :
    Db.Continues before (closeRun job ending now) := by
  have hcounters : Db.Continues before (Txn.counters : Db RunStats) :=
    Txn.Upholds.counters.conseq (fun _ _ h => h) (fun _ _ _ h => h.1) fun _ _ h => h
  cases ending with
  | ok a =>
      exact .bind hcounters fun _ => .bind (saveResults _ _) fun _ => .bind (assign _ _) fun _ =>
        .pure fun _ _ h => h
  | error e =>
      cases e with
      | valueError => exact .raise fun _ _ h => h
      | sourceError message =>
          exact .bind hcounters fun _ => .bind (saveResults _ _) fun _ =>
            .bind (assign _ _) fun _ => .raise fun _ _ h => h

theorem ingest (env : Platform) (call : IngestCall) : Db.Continues before (ingest env call) := by
  refine .settled (ingest_rules env (Txn.Composed.rules _ _) call) (fun s a s' hopen hs hrun => ?_)
    fun s e s' hopen hs hrun => ?_
  · obtain ⟨ws, hi, hview, -⟩ := ingest_completes env hopen hrun
    rw [hview]
    exact hs.trans (.ingests hi)
  · obtain ⟨ws, ha, hview, -⟩ := ingest_raises env hopen hrun
    rw [hview]
    exact hs.trans (.aborts ha)

theorem runCollection (env : Platform) (config : SourceConfig) (jobId : Option Nat)
    (collection : Collection) (startedAt finishedAt : Instant) :
    Db.Continues before (runCollection env config jobId collection startedAt finishedAt) := by
  refine .bind (openRun config jobId startedAt) fun opened => ?_
  obtain ⟨source, job, suppressions⟩ := opened
  refine .bind (.attemptEach (fun item _ => ?_) fun _ _ h => h) fun _ =>
    closeRun job collection.ending finishedAt
  obtain ⟨i, fault⟩ := item
  cases i with
  | error message => exact .note fun _ _ h => h
  | record raw => exact ingest env _

theorem program (env : Platform) (t : Transaction) : Db.Continues before (t.program env) :=
  t.program_rules (Txn.Upholds.rules fun st _ => before.Continues st) upsertSource createJob
    fun config jobId collection startedAt finishedAt _ =>
      runCollection env config jobId collection startedAt finishedAt

end Db.Continues

namespace Store.Continues

variable {env : Platform} {st : Store}

theorem perform (env : Platform) (st : Store) (t : Transaction) (fault : Option Nat) :
    st.Continues (t.perform env st fault) := by
  unfold Transaction.perform
  cases hcommit : Txn.commit (t.program env) (Transaction.session st fault) with
  | ok st' =>
      obtain ⟨-, -, hst⟩ := (Db.Continues.program env t).commits
        (s := Transaction.session st fault) (refl st) hcommit
      exact hst
  | error e => exact rolledBack st _

theorem add (st : Store) (kind : SuppressionKind) (value : Text) (reason : Option Text) :
    st.Continues (SuppressionRepository.add env st kind value reason) := by
  unfold SuppressionRepository.add
  dsimp only
  split
  · exact refl st
  · exact { refl st with suppressions := .put le_rfl }

theorem addIf (st : Store) (kind : SuppressionKind) (value : Option Text) (reason : Text) :
    st.Continues (SuppressionRepository.addIf env st kind value reason) := by
  unfold SuppressionRepository.addIf
  split
  · split
    · exact refl st
    · exact add st _ _ _
  · exact refl st

theorem remove (st : Store) (suppressionId : Nat) :
    st.Continues (SuppressionRepository.remove st suppressionId) :=
  { refl st with suppressions := .erase _ _ }

theorem deleteLeadRoute (st : Store) (leadId : Nat) (suppressed : Bool) :
    st.Continues ((LeadPipe.deleteLeadRoute env st leadId suppressed).getD st) := by
  unfold LeadPipe.deleteLeadRoute
  cases st.leads.find? leadId with
  | none => exact refl st
  | some lead =>
      cases suppressed with
      | false => exact deleteLead st leadId
      | true => exact ((addIf st _ _ _).trans (addIf _ _ _ _)).trans (deleteLead _ leadId)

theorem step (env : Platform) (st : Store) (op : Operation) : st.Continues (op.step env st) := by
  cases op with
  | transaction t fault => exact perform env st t fault
  | claim worker now locked =>
      change st.Continues (Queue.claim st worker now locked).2
      unfold Queue.claim
      cases Queue.nextJob st now locked with
      | none => exact refl st
      | some job => exact updateJobs _ fun _ _ _ => ⟨rfl, rfl, rfl, Nat.le_succ _⟩
  | heartbeat jobId now => exact updateJobs _ fun _ _ _ => ⟨rfl, rfl, rfl, le_rfl⟩
  | fail job error now jitter =>
      change st.Continues (Queue.fail st job error now jitter).2
      unfold Queue.fail
      split
      · exact updateJobs _ fun _ _ _ => ⟨rfl, rfl, rfl, le_rfl⟩
      · exact updateJobs _ fun _ _ _ => ⟨rfl, rfl, rfl, le_rfl⟩
  | recoverStale staleAfter now failedAt =>
      refine trans (updateJobs (fun j => j.failed_id stoppedResponding failedAt) fun j _ _ => ?_)
        (updateJobs CollectionJob.released_id fun j _ _ => ?_)
      · exact ⟨rfl, rfl, rfl, le_rfl⟩
      · exact ⟨rfl, rfl, rfl, le_rfl⟩
  | deleteLead leadId suppressed => exact deleteLeadRoute st leadId suppressed
  | purge cutoff =>
      exact Store.purge_keeps (P := fun st' => st.Continues st')
        (fun st' leadId h => h.trans (deleteLead st' leadId)) (refl st) cutoff
  | suppress kind value reason => exact add st kind value reason
  | unsuppress suppressionId => exact remove st suppressionId
  | removeValue kind value =>
      exact SuppressionRepository.removeValue_keeps env (P := fun st' => st.Continues st')
        (fun st' suppressionId h => h.trans (remove st' suppressionId)) (refl st) kind value

end Store.Continues

/-- Whatever happens after a state, its numbers stand for the rows they stood for, as far as these
are still there. -/
theorem rows_keep_their_identity {env : Platform} (ops more : List Operation) :
    (execute (Operation.step env) .empty ops).Continues
      (execute (Operation.step env) .empty (ops ++ more)) := by
  rw [execute_append]
  exact execute_invariant (I := fun st => (execute (Operation.step env) .empty ops).Continues st)
    (.refl _) (fun st op h => h.trans (.step env st op)) more

end LeadPipe
