import LeadPipe.Jobs.Service
import LeadPipe.Pipeline.Effect
import LeadPipe.Repositories.Admission

/-!
# Collections and the constraints

A collection and the services that queue jobs violate no constraint of the schema, whatever the
adapter yields, whichever statements the database refuses and however the run ends.
-/

namespace LeadPipe

open Framework

variable (env : Platform) {rows : List RowRef}

section Ingest

theorem ownLead_safe (record : SourceRecord) :
    Db.Safe rows (ownLead record) fun own => (own.map fun l => .lead l.id).toList := by
  unfold ownLead
  cases record.leadId with
  | some leadId => exact LeadRepository.get_safe leadId
  | none => exact .pure (by simp)

theorem bestMatch_safe (lead : NormalizedLead) (exclude : Option Nat) :
    Db.Safe rows (bestMatch env lead exclude)
      fun best => (best.map fun p => .lead p.1.id).toList := by
  refine .bind (LeadRepository.findCandidates_safe env (fingerprints env lead))
    fun candidates => .pure fun ref href => ?_
  obtain ⟨existing, result, hbest, rfl⟩ : ∃ existing result,
      pickBest env lead exclude candidates = some (existing, result) ∧ .lead existing.id = ref := by
    simpa using href
  exact List.mem_append_left _ (List.mem_map.mpr ⟨existing, (pickBest_some env hbest).1, rfl⟩)

theorem remerge_safe {leadRow : Lead} (hlead : .lead leadRow.id ∈ rows) (incoming : NormalizedLead)
    (recordId : Nat) (priority : Int) :
    Db.Safe rows (remerge env leadRow incoming recordId priority) fun _ => [] := by
  refine .bind (.read _) fun stored => ?_
  cases merge (withIncoming stored incoming recordId priority) with
  | none => exact .raise _
  | some merged =>
      exact .bind (.lift _) fun validation =>
        LeadRepository.update_safe env (by simpa using hlead) merged validation

theorem place_safe (call : IngestCall) (lead : NormalizedLead) (validation : LeadValidation)
    {record : SourceRecord} {own : Option Lead} {best : Option (Lead × MatchResult)}
    (hrecord : .record record.id ∈ rows) (hown : ∀ l, own = some l → .lead l.id ∈ rows)
    (hbest : ∀ p, best = some p → .lead p.1.id ∈ rows) :
    Db.Safe rows (place env call lead validation record own best) fun _ => [] := by
  have hattach : Db.Safe rows (place.attach env call lead validation record own) fun _ => [] := by
    unfold place.attach
    cases own with
    | some own =>
        exact .bind (remerge_safe env (hown own rfl) lead record.id call.priority) fun _ => .note _
    | none =>
        cases merge [⟨lead, Text.ofNat record.id, call.priority⟩] with
        | none => exact .raise _
        | some merged =>
            refine .bind (LeadRepository.create_safe env merged validation) fun created => ?_
            refine .bind (LeadRepository.link_safe (by simp) (by simp [hrecord]) _ _ _ _) fun _ => ?_
            exact .note _
  unfold place
  cases best with
  | none => exact hattach
  | some p =>
      obtain ⟨existing, result⟩ := p
      dsimp only
      split
      · have hexisting := hbest _ rfl
        refine .bind (remerge_safe env hexisting lead record.id call.priority) fun _ => ?_
        exact .bind (LeadRepository.link_safe hexisting hrecord _ _ _ _) fun _ => .note _
      · exact hattach

theorem flag_safe {record : SourceRecord} {best : Option (Lead × MatchResult)}
    (hrecord : .record record.id ∈ rows) (hbest : ∀ p, best = some p → .lead p.1.id ∈ rows) :
    Db.Safe rows (flag record best) fun _ => [] := by
  unfold flag
  cases best with
  | none => exact .pure (by simp)
  | some p =>
      dsimp only
      split
      · exact .bind (LeadRepository.link_safe (hbest p rfl) hrecord _ _ _ _) fun _ => .note _
      · exact .pure (by simp)

theorem ingest_safe (call : IngestCall) (hsource : .source call.source.id ∈ rows)
    (hjob : .job call.jobId ∈ rows) : Db.Safe rows (ingest env call) fun _ => [] := by
  refine .bind (.note _) fun _ => ?_
  cases call.suppressions.blocks (normalizeRecord env call.raw call.region).toLeadPayload with
  | some _ => exact .note _
  | none =>
      refine .bind (.lift _) fun validation => .bind (.note _) fun _ => ?_
      refine .bind (SourceRecordRepository.upsert_safe env (by simpa using hsource)
        (by simpa using hjob) _ validation _) fun p => ?_
      refine .bind (ownLead_safe p.1) fun own => .bind (bestMatch_safe env _ _) fun best => ?_
      refine .bind (place_safe env call _ validation (by simp) ?_ ?_) fun _ => flag_safe (by simp) ?_
      · intro l hl
        simp [hl]
      · intro q hq
        simp [hq]
      · intro q hq
        simp [hq]

theorem processItem_safe {source : Source} {jobId : Nat} (hsource : .source source.id ∈ rows)
    (hjob : .job jobId ∈ rows) (config : SourceConfig) (suppressions : SuppressionList)
    (item : CollectedItem) :
    Db.Safe rows (processItem env source config jobId suppressions item) fun _ => [] := by
  cases item with
  | error message => exact .note _
  | record raw => exact ingest_safe env _ hsource hjob

end Ingest

section Run

theorem openRun_safe (config : SourceConfig) (jobId : Option Nat) (now : Instant) :
    Db.Safe rows (openRun config jobId now)
      fun p => [.source p.1.id, .job p.2.1.id] := by
  refine .bind (SourceRepository.upsert_safe _ _ _ _ _) fun source => ?_
  have hopened {rows : List RowRef} (hsource : .source source.id ∈ rows) {job : CollectionJob}
      (hjob : .job job.id ∈ rows) :
      Db.Safe rows (do
        let job ← JobRepository.markRunning job now
        let suppressions ← SuppressionRepository.load
        return (source, job, suppressions) : Db (Source × CollectionJob × SuppressionList))
        fun p => [.source p.1.id, .job p.2.1.id] := by
    refine .bind (JobRepository.markRunning_safe hjob now) fun job => ?_
    refine .bind (.read _) fun suppressions => ?_
    exact .pure (by simp [hsource])
  cases jobId with
  | some id =>
      refine .bind (JobRepository.get_safe id) fun found => ?_
      cases found with
      | none => exact .raise _
      | some job => exact hopened (by simp) (by simp)
  | none =>
      have hcreated : Db.Safe ([.source source.id] ++ rows)
          (some <$> JobRepository.create source.id now : Db (Option CollectionJob))
          fun found => (found.map fun j => .job j.id).toList :=
        .bind (JobRepository.create_safe (by simp) now) fun job => .pure (by simp)
      refine .bind hcreated fun found => ?_
      cases found with
      | none => exact .raise _
      | some job => exact hopened (by simp) (by simp)

theorem closeRun_safe {job : CollectionJob} (hjob : .job job.id ∈ rows)
    (ending : Except PyError Unit) (now : Instant) :
    Db.Safe rows (closeRun job ending now) fun _ => [] := by
  have hcounters : Db.Safe rows (Txn.counters : Db RunStats) fun _ => [] := Txn.Triple.counters
  cases ending with
  | ok _ =>
      refine .bind hcounters fun stats => .bind (JobRepository.saveResults_safe hjob _) fun _ => ?_
      exact .bind (JobRepository.markFinished_safe hjob _ _ now) fun _ => .pure (by simp)
  | error e =>
      cases e with
      | sourceError message =>
          refine .bind hcounters fun stats => .bind (JobRepository.saveResults_safe hjob _) fun _ => ?_
          exact .bind (JobRepository.markFinished_safe hjob _ _ now) fun _ => .raise _
      | _ => exact .raise _

theorem runCollection_safe (config : SourceConfig) (jobId : Option Nat) (collection : Collection)
    (startedAt finishedAt : Instant) :
    Db.Safe rows (runCollection env config jobId collection startedAt finishedAt) fun _ => [] := by
  refine .bind (openRun_safe config jobId startedAt) fun opened => ?_
  obtain ⟨source, job, suppressions⟩ := opened
  have hitems : Db.Safe ([.source source.id, .job job.id] ++ rows) (Txn.attemptEach
      (processItem env source config job.id suppressions) RunStats.countError collection.items)
      fun _ => [] :=
    .attemptEach _ (fun _ _ hv hw => hv.write hw) (fun item => (processItem_safe env (by simp)
      (by simp) config suppressions item).forget) _
  exact .bind hitems fun _ => closeRun_safe (by simp) _ _

end Run

end LeadPipe
