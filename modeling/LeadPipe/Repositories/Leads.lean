import LeadPipe.Db.Models
import LeadPipe.Deduplication.Merge

/-!
# Leads and their links

`app/repositories/leads.py`.
-/

namespace LeadPipe

open Framework

variable (env : Platform)

def MatchRule.value : MatchRule → Text
  | .email => "email".toList
  | .website => "website".toList
  | .phone => "phone".toList
  | .nameLocation => "name_location".toList
  | .externalId => "external_id".toList

/-- `_to_normalized` -/
def SourceRecord.toNormalized (record : SourceRecord) (sourceName : Text) : NormalizedLead where
  toLeadPayload := record.normalized
  source := ⟨sourceName, record.sourceUrl⟩
  collectedAt := record.collectedAt

namespace LeadRepository

def get (leadId : Nat) : Db (Option Lead) := Txn.query fun st => st.leads.find? leadId

/-- The candidate query asks for something at all. -/
def hasConditions (fp : Fingerprints) : Bool :=
  Text.truthy fp.email || Text.truthy fp.domain || Text.truthy fp.phone ||
    (Text.truthy fp.nameSlug && Text.truthy fp.location)

/-- The disjunction of the candidate query; a `NULL` column equals nothing. -/
def isCandidate (fp : Fingerprints) (policy : MatchPolicy) (lead : Lead) : Bool :=
  (Text.truthy fp.email && lead.email == fp.email) ||
    (Text.truthy fp.domain && lead.websiteDomain == fp.domain) ||
    (Text.truthy fp.phone && lead.phone == fp.phone) ||
    (Text.truthy fp.nameSlug && Text.truthy fp.location && lead.locationKey == fp.location &&
      match lead.nameSlug, fp.nameSlug with
      | some stored, some slug => policy.nameSimilarityThreshold ≤ env.similarity stored slug
      | _, _ => false)

def candidateLimit : Nat := 20

def shortlist (st : Store) (fp : Fingerprints) (policy : MatchPolicy := defaultPolicy)
    (limit : Nat := candidateLimit) : List Lead :=
  (st.leads.select (isCandidate env fp policy)).take limit

def findCandidates (fp : Fingerprints) : Db (List Lead) :=
  if hasConditions fp then Txn.query fun st => shortlist env st fp else pure []

/-- `_apply` -/
def applyMerged (lead : Lead) (merged : MergedLead) (validation : LeadValidation) : Lead where
  toLeadPayload := merged.lead.toLeadPayload
  id := lead.id
  nameSlug := companySlug env merged.lead.companyName
  locationKey := locationKey env merged.lead.city merged.lead.country
  validationStatus := validation.status
  firstSeenAt := lead.firstSeenAt
  lastSeenAt := max lead.firstSeenAt merged.lead.collectedAt

def blank (id : Nat) (merged : MergedLead) : Lead where
  toLeadPayload := merged.lead.toLeadPayload
  id := id
  nameSlug := none
  locationKey := none
  validationStatus := .unknown
  firstSeenAt := merged.lead.collectedAt
  lastSeenAt := merged.lead.collectedAt

def create (merged : MergedLead) (validation : LeadValidation) : Db Lead :=
  Db.insert (fun st => st.leads.next) .insertLead fun id =>
    applyMerged env (blank id merged) merged validation

def update (lead : Lead) (merged : MergedLead) (validation : LeadValidation) : Db Unit :=
  Txn.execute (.updateLead (applyMerged env lead merged validation))

/-- One row of the join of a lead's records with their sources. -/
def toCandidate (st : Store) (record : SourceRecord) : Option Candidate :=
  (st.sources.find? record.sourceId).map fun source =>
    ⟨record.toNormalized source.name, Text.ofNat record.id, source.priority⟩

def candidatesFor (st : Store) (leadId : Nat) : List Candidate :=
  (st.records.select fun r => r.leadId == some leadId).filterMap (toCandidate st)

def linkBetween (st : Store) (leadId sourceRecordId : Nat) : Option LeadMerge :=
  (st.merges.select fun m => m.leadId == leadId && m.sourceRecordId == sourceRecordId).head?

/-- A pair that is linked already is rewritten in place, and then `claim` is not looked at. -/
def link (leadId sourceRecordId : Nat) (rule : Text) (confidence : ℚ)
    (needsReview : Bool := false) (claim : Bool := true) : Db Unit := do
  match ← Txn.query fun st => linkBetween st leadId sourceRecordId with
  | some existing =>
      Txn.execute (.updateMerge { existing with rule, confidence, needsReview })
  | none =>
      if claim then
        Txn.execute (.claimRecord sourceRecordId leadId)
      let _ ← Db.insert (fun st => st.merges.next) .insertMerge fun id =>
        (⟨id, leadId, sourceRecordId, rule, confidence, needsReview⟩ : LeadMerge)

/-- `Provenance`: one row of the join of a lead's links with their records and sources. -/
structure Provenance where
  sourceName : Text
  sourceRecordId : Nat
  sourceUrl : Option Text
  rule : Text
  confidence : ℚ
  needsReview : Bool
  deriving DecidableEq

def toProvenance (st : Store) (m : LeadMerge) : Option Provenance :=
  (st.records.find? m.sourceRecordId).bind fun record =>
    (st.sources.find? record.sourceId).map fun source =>
      ⟨source.name, record.id, record.sourceUrl, m.rule, m.confidence, m.needsReview⟩

def provenance (st : Store) (leadId : Nat) : List Provenance :=
  (st.merges.select fun m => m.leadId == leadId).filterMap (toProvenance st)

end LeadRepository

namespace Store

/-- `LeadRepository.delete` with the cascades of the schema: the lead's records go, and every
link of the lead or of one of those records. -/
def deleteLead (st : Store) (leadId : Nat) : Store :=
  let owned (recordId : Nat) : Bool :=
    (st.records.find? recordId).any fun r => r.leadId == some leadId
  { st with
    leads := st.leads.erase fun l => l.id == leadId
    records := st.records.erase fun r => r.leadId == some leadId
    merges := st.merges.erase fun m => m.leadId == leadId || owned m.sourceRecordId }

/-- `LeadRepository.purge_older_than`. -/
def purgeOlderThan (st : Store) (cutoff : Instant) : Store :=
  (st.leads.select fun l => l.lastSeenAt < cutoff).foldl (fun st l => st.deleteLead l.id) st

end Store

end LeadPipe
