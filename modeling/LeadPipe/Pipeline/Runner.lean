import LeadPipe.Framework.Program
import LeadPipe.Normalization.Fields
import LeadPipe.Repositories.Jobs
import LeadPipe.Repositories.Leads
import LeadPipe.Repositories.Records
import LeadPipe.Repositories.Suppressions

/-!
# The collection pipeline

`app/pipeline/runner.py`: one record through normalisation, suppression, validation,
matching and merging, and the run that does this for everything an adapter yields.
-/

namespace LeadPipe

open Framework

variable (env : Platform)

def initialRule : Text := "initial".toList

namespace RunStats

def graded (s : RunStats) : ValidationStatus → RunStats
  | .valid => { s with valid := s.valid + 1 }
  | .invalid => { s with invalid := s.invalid + 1 }
  | .unknown => { s with unknown := s.unknown + 1 }

def countError (s : RunStats) : RunStats := { s with errors := s.errors + 1 }

/-- `_persisted` -/
def persisted (s : RunStats) : Persisted :=
  ⟨s.collected, s.valid, s.invalid, s.duplicates, s.newLeads, s.errors, s.suppressed⟩

end RunStats

/-- `_as_normalized`: a stored lead as the matcher sees it. -/
def asNormalized (stored : Lead) (incoming : NormalizedLead) : NormalizedLead where
  toLeadPayload := { stored.toLeadPayload with extra := [] }
  source := incoming.source
  collectedAt := stored.lastSeenAt

/-- One turn of the loop of `_best_match`: a tie keeps the earlier candidate. -/
def betterMatch (lead : NormalizedLead) (exclude : Option Nat)
    (best : Option (Lead × MatchResult)) (candidate : Lead) : Option (Lead × MatchResult) :=
  if some candidate.id = exclude then best
  else
    match matchLeads env lead (asNormalized candidate lead) with
    | none => best
    | some result =>
        match best with
        | none => some (candidate, result)
        | some (_, current) =>
            if current.confidence < result.confidence then some (candidate, result) else best

def pickBest (lead : NormalizedLead) (exclude : Option Nat) (candidates : List Lead) :
    Option (Lead × MatchResult) :=
  candidates.foldl (betterMatch env lead exclude) none

def bestMatch (lead : NormalizedLead) (exclude : Option Nat) :
    Db (Option (Lead × MatchResult)) := do
  let candidates ← LeadRepository.findCandidates env (fingerprints env lead)
  return pickBest env lead exclude candidates

/-- The candidates of a lead with the incoming record in place of its stored self. -/
def withIncoming (stored : List Candidate) (incoming : NormalizedLead) (recordId : Nat)
    (priority : Int) : List Candidate :=
  (stored.filter fun c => c.origin != Text.ofNat recordId) ++
    [⟨incoming, Text.ofNat recordId, priority⟩]

def remerge (leadRow : Lead) (incoming : NormalizedLead) (recordId : Nat) (priority : Int) :
    Db Unit := do
  let stored ← Txn.query fun st => LeadRepository.candidatesFor st leadRow.id
  match merge (withIncoming stored incoming recordId priority) with
  | none => Txn.raise .valueError
  | some merged =>
      let validation ← Txn.lift (validateLead env merged.lead)
      LeadRepository.update env leadRow merged validation

/-- What `_ingest` is called with, besides the session. -/
structure IngestCall where
  source : Source
  priority : Int
  raw : RawRecord
  region : Option Text
  jobId : Nat
  suppressions : SuppressionList

/-- A record a source of its own priority collects with nothing configured besides. -/
def IngestCall.plain (source : Source) (collectedAt : Instant)
    (fields : List (String × String)) : IngestCall where
  source := source
  priority := source.priority
  raw := ⟨⟨source.name, none⟩, fields.map fun p => (p.1.toList, some p.2.toList), collectedAt⟩
  region := none
  jobId := 1
  suppressions := ⟨[], []⟩

/-- The branch of `_ingest` on the match and on the record's own lead. -/
def place (call : IngestCall) (lead : NormalizedLead) (validation : LeadValidation)
    (record : SourceRecord) (own : Option Lead) (best : Option (Lead × MatchResult)) :
    Db Unit := do
  match best with
  | some (existing, result) =>
      if result.autoMerge then
        remerge env existing lead record.id call.priority
        LeadRepository.link existing.id record.id result.rule.value result.confidence
        Txn.note fun s => { s with duplicates := s.duplicates + 1 }
      else attach
  | none => attach
where
  attach : Db Unit := do
    match own with
    | some own =>
        remerge env own lead record.id call.priority
        Txn.note fun s => { s with duplicates := s.duplicates + 1 }
    | none =>
        match merge [⟨lead, Text.ofNat record.id, call.priority⟩] with
        | none => Txn.raise .valueError
        | some merged =>
            let created ← LeadRepository.create env merged validation
            LeadRepository.link created.id record.id initialRule 1
            Txn.note fun s => { s with newLeads := s.newLeads + 1 }

/-- A match below the threshold is recorded for review. -/
def flag (record : SourceRecord) (best : Option (Lead × MatchResult)) : Db Unit := do
  match best with
  | some (existing, result) =>
      if !result.autoMerge then
        LeadRepository.link existing.id record.id result.rule.value result.confidence
          true false
        Txn.note fun s => { s with needsReview := s.needsReview + 1 }
  | none => pure ()

def ownLead (record : SourceRecord) : Db (Option Lead) :=
  match record.leadId with
  | some leadId => LeadRepository.get leadId
  | none => pure none

def ingest (call : IngestCall) : Db Unit := do
  let lead := normalizeRecord env call.raw call.region
  Txn.note fun s => { s with collected := s.collected + 1 }
  match call.suppressions.blocks lead.toLeadPayload with
  | some _ => Txn.note fun s => { s with suppressed := s.suppressed + 1 }
  | none =>
      let validation ← Txn.lift (validateLead env lead)
      Txn.note fun s => s.graded validation.status
      let (record, _) ← SourceRecordRepository.upsert env call.source.id lead validation
        (some call.jobId) lead.externalId
      let own ← ownLead record
      let best ← bestMatch env lead (own.map Lead.id)
      place env call lead validation record own best
      flag record best

inductive CollectedItem where
  | record (raw : RawRecord)
  | error (message : Text)

/-- `SourceConfig` with the region of the defaults already taken into account. -/
structure SourceConfig where
  name : Text
  type : Text
  enabled : Bool
  priority : Int
  region : Option Text
  options : Text

/-- What the adapter yields before it finishes or raises. With each item comes the ordinal of
the statement the database refuses while the item is processed, if there is one. -/
structure Collection where
  items : List (CollectedItem × Option Nat)
  ending : Except PyError Unit

def processItem (source : Source) (config : SourceConfig) (jobId : Nat)
    (suppressions : SuppressionList) : CollectedItem → Db Unit
  | .error _ => Txn.note RunStats.countError
  | .record raw =>
      ingest env ⟨source, config.priority, raw, config.region, jobId, suppressions⟩

/-- The part of `run_collection` before the adapter is asked for anything. -/
def openRun (config : SourceConfig) (jobId : Option Nat) (now : Instant) :
    Db (Source × CollectionJob × SuppressionList) := do
  let source ← SourceRepository.upsert config.name config.type config.priority config.enabled
    config.options
  let job ← match jobId with
    | some id => JobRepository.get id
    | none => some <$> JobRepository.create source.id now
  match job with
  | none =>
      let wanted := (jobId.map Text.ofNat).getD "None".toList
      Txn.raise (.sourceError ("job ".toList ++ wanted ++ " not found".toList))
  | some job =>
      let job ← JobRepository.markRunning job now
      let suppressions ← SuppressionRepository.load
      return (source, job, suppressions)

/-- The counters kept so far and the final status; a source that failed is raised again. -/
def closeRun (job : CollectionJob) (ending : Except PyError Unit) (now : Instant) :
    Db Unit := do
  match ending with
  | .ok () =>
      let stats ← Txn.counters
      JobRepository.saveResults job.id stats.persisted
      let _ ← JobRepository.markFinished job .completed none now
  | .error (.sourceError message) =>
      let stats ← Txn.counters
      JobRepository.saveResults job.id stats.persisted
      let _ ← JobRepository.markFinished job .failed (some message) now
      Txn.raise (.sourceError message)
  | .error e => Txn.raise e

def runCollection (config : SourceConfig) (jobId : Option Nat) (collection : Collection)
    (startedAt finishedAt : Instant) : Db Unit := do
  let (source, job, suppressions) ← openRun config jobId startedAt
  Txn.attemptEach (processItem env source config job.id suppressions) RunStats.countError
    collection.items
  closeRun job collection.ending finishedAt

end LeadPipe
