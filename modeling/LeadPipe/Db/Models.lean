import LeadPipe.Framework.Table
import LeadPipe.Framework.Transaction
import LeadPipe.Deduplication.Matcher
import LeadPipe.Validation.Lead

/-!
# The database

The tables of `app/db/models.py` and the writes the program makes to them. Columns nobody
reads (`raw`, `created_at` and `updated_at` of most tables) are left out. A `Write` is one
`INSERT` or `UPDATE` of the object-relational mapper, with its row as the session sees it.
-/

namespace LeadPipe

open Framework

inductive SuppressionKind where
  | email
  | domain
  deriving DecidableEq, Repr

inductive JobStatus where
  | pending
  | running
  | completed
  | failed
  | cancelled
  deriving DecidableEq, Repr

structure Source where
  id : Nat
  name : Text
  type : Text
  priority : Int
  enabled : Bool
  config : Text
  deriving DecidableEq

structure SourceRecord where
  id : Nat
  sourceId : Nat
  jobId : Option Nat
  leadId : Option Nat
  recordKey : Text
  externalId : Option Text
  sourceUrl : Option Text
  normalized : LeadPayload
  fpEmail : Option Text
  fpDomain : Option Text
  fpPhone : Option Text
  fpNameSlug : Option Text
  fpLocation : Option Text
  validationStatus : ValidationStatus
  validationFields : Dict FieldValidation
  collectedAt : Instant
  deriving DecidableEq

structure Lead extends LeadPayload where
  id : Nat
  nameSlug : Option Text
  locationKey : Option Text
  validationStatus : ValidationStatus
  firstSeenAt : Instant
  lastSeenAt : Instant
  deriving DecidableEq

structure LeadMerge where
  id : Nat
  leadId : Nat
  sourceRecordId : Nat
  rule : Text
  confidence : ℚ
  needsReview : Bool
  deriving DecidableEq

structure Suppression where
  id : Nat
  kind : SuppressionKind
  value : Text
  reason : Option Text
  deriving DecidableEq

structure CollectionJob where
  id : Nat
  sourceId : Nat
  status : JobStatus
  error : Option Text
  startedAt : Option Instant
  finishedAt : Option Instant
  attempts : Nat
  maxAttempts : Nat
  heartbeatAt : Option Instant
  runAfter : Option Instant
  claimedBy : Option Text
  createdAt : Instant
  deriving DecidableEq

/-- The columns of a job a collection assigns; `none` is a column its flush leaves out. -/
structure JobChanges where
  status : Option JobStatus
  error : Option (Option Text)
  startedAt : Option (Option Instant)
  finishedAt : Option (Option Instant)
  deriving DecidableEq

namespace JobChanges

def changed {α : Type} [DecidableEq α] (loaded assigned : α) : Option α :=
  if assigned = loaded then none else some assigned

/-- A flush emits the columns whose assigned value differs from the loaded one. -/
def between (loaded assigned : CollectionJob) : JobChanges where
  status := changed loaded.status assigned.status
  error := changed loaded.error assigned.error
  startedAt := changed loaded.startedAt assigned.startedAt
  finishedAt := changed loaded.finishedAt assigned.finishedAt

def isEmpty (changes : JobChanges) : Bool := changes = ⟨none, none, none, none⟩

def apply (changes : JobChanges) (job : CollectionJob) : CollectionJob :=
  { job with
    status := changes.status.getD job.status
    error := changes.error.getD job.error
    startedAt := changes.startedAt.getD job.startedAt
    finishedAt := changes.finishedAt.getD job.finishedAt }

@[simp] theorem apply_id (changes : JobChanges) (job : CollectionJob) :
    (changes.apply job).id = job.id := rfl

theorem changed_getD {α : Type} [DecidableEq α] (loaded assigned : α) :
    (changed loaded assigned).getD loaded = assigned := by
  unfold changed
  split
  · rename_i h
    exact h.symm
  · rfl

@[simp] theorem changed_eq_none {α : Type} [DecidableEq α] {loaded assigned : α} :
    changed loaded assigned = none ↔ assigned = loaded := by
  unfold changed
  split <;> simp [*]

end JobChanges

structure RunStats where
  collected : Nat := 0
  valid : Nat := 0
  invalid : Nat := 0
  unknown : Nat := 0
  duplicates : Nat := 0
  newLeads : Nat := 0
  needsReview : Nat := 0
  suppressed : Nat := 0
  errors : Nat := 0
  deriving DecidableEq

/-- The counters a job result stores: not `unknown` and not `needs_review`. -/
structure Persisted where
  collected : Nat
  valid : Nat
  invalid : Nat
  duplicates : Nat
  newLeads : Nat
  errors : Nat
  suppressed : Nat
  deriving DecidableEq

structure CollectionJobResult where
  id : Nat
  jobId : Nat
  counters : Persisted
  deriving DecidableEq

instance : Keyed Source := ⟨Source.id⟩
instance : Keyed SourceRecord := ⟨SourceRecord.id⟩
instance : Keyed Lead := ⟨Lead.id⟩
instance : Keyed LeadMerge := ⟨LeadMerge.id⟩
instance : Keyed Suppression := ⟨Suppression.id⟩
instance : Keyed CollectionJob := ⟨CollectionJob.id⟩
instance : Keyed CollectionJobResult := ⟨CollectionJobResult.id⟩

@[simp] theorem key_source (r : Source) : key r = r.id := rfl
@[simp] theorem key_record (r : SourceRecord) : key r = r.id := rfl
@[simp] theorem key_lead (r : Lead) : key r = r.id := rfl
@[simp] theorem key_merge (r : LeadMerge) : key r = r.id := rfl
@[simp] theorem key_suppression (r : Suppression) : key r = r.id := rfl
@[simp] theorem key_job (r : CollectionJob) : key r = r.id := rfl
@[simp] theorem key_result (r : CollectionJobResult) : key r = r.id := rfl

structure Store where
  sources : Table Source
  records : Table SourceRecord
  leads : Table Lead
  merges : Table LeadMerge
  suppressions : Table Suppression
  jobs : Table CollectionJob
  results : Table CollectionJobResult

inductive Write where
  | insertSource (row : Source)
  | updateSource (row : Source)
  | insertRecord (row : SourceRecord)
  | updateRecord (row : SourceRecord)
  | claimRecord (recordId leadId : Nat)
  | insertLead (row : Lead)
  | updateLead (row : Lead)
  | insertMerge (row : LeadMerge)
  | updateMerge (row : LeadMerge)
  | insertJob (row : CollectionJob)
  | updateJob (jobId : Nat) (changes : JobChanges)
  | insertResult (row : CollectionJobResult)
  | updateResult (row : CollectionJobResult)

namespace Write

def apply : Write → Store → Store
  | insertSource r, st => { st with sources := st.sources.put r }
  | updateSource r, st => { st with sources := st.sources.replace r }
  | insertRecord r, st => { st with records := st.records.put r }
  | updateRecord r, st => { st with records := st.records.replace r }
  | claimRecord recordId leadId, st =>
      { st with
        records := st.records.update (fun r => r.id == recordId)
          (fun r => { r with leadId := some leadId }) fun _ => rfl }
  | insertLead r, st => { st with leads := st.leads.put r }
  | updateLead r, st => { st with leads := st.leads.replace r }
  | insertMerge r, st => { st with merges := st.merges.put r }
  | updateMerge r, st => { st with merges := st.merges.replace r }
  | insertJob r, st => { st with jobs := st.jobs.put r }
  | updateJob jobId changes, st =>
      { st with
        jobs := st.jobs.update (fun j => j.id == jobId) changes.apply changes.apply_id }
  | insertResult r, st => { st with results := st.results.put r }
  | updateResult r, st => { st with results := st.results.replace r }

/-- The write is to `sources`. -/
def OfSources : Write → Prop
  | insertSource _ | updateSource _ => True
  | _ => False

/-- The write is to `collection_jobs` or `collection_job_results`. -/
def OfJobs : Write → Prop
  | insertJob _ | updateJob _ _ => True
  | insertResult _ | updateResult _ => True
  | _ => False

end Write

instance : Replays Write Store := ⟨Write.apply⟩

theorem Store.replay_sources {ws : List Write} (hws : ∀ w ∈ ws, w.OfSources) (st : Store) :
    ∃ sources, Session.replay ws st = { st with sources } := by
  induction ws generalizing st with
  | nil => exact ⟨st.sources, rfl⟩
  | cons w ws ih =>
      obtain ⟨sources, hrest⟩ := ih (fun w hw => hws w (List.mem_cons_of_mem _ hw)) (w.apply st)
      refine ⟨sources, hrest.trans ?_⟩
      have hw := hws w List.mem_cons_self
      cases w <;> first | rfl | exact hw.elim

theorem Store.replay_jobs {ws : List Write} (hws : ∀ w ∈ ws, w.OfJobs) (st : Store) :
    ∃ jobs results, Session.replay ws st = { st with jobs, results } := by
  induction ws generalizing st with
  | nil => exact ⟨st.jobs, st.results, rfl⟩
  | cons w ws ih =>
      obtain ⟨jobs, results, hrest⟩ :=
        ih (fun w hw => hws w (List.mem_cons_of_mem _ hw)) (w.apply st)
      refine ⟨jobs, results, hrest.trans ?_⟩
      have hw := hws w List.mem_cons_self
      cases w <;> first | rfl | exact hw.elim

namespace Store

def empty : Store := ⟨.empty, .empty, .empty, .empty, .empty, .empty, .empty⟩

end Store

/-- A program that runs in a collection's session. The counters of the run are not the
database's: they survive whatever happens to the transaction. -/
abbrev Db := Txn Store Write RunStats PyError

/-- A session as `session_factory` opens it on the committed store. -/
def Store.session (st : Store) : Session Store Write RunStats :=
  ⟨st, [], false, none, {}⟩

namespace Db

/-- `session.add` and the flush that follows; the row takes the next key of its table. -/
def insert {ρ : Type} (next : Store → Nat) (write : ρ → Write) (row : Nat → ρ) : Db ρ := do
  let id ← Txn.peek next
  Txn.execute (write (row id))
  return row id

theorem insert_healthy {ρ : Type} {s : Session Store Write RunStats} (h : s.Healthy)
    (next : Store → Nat) (write : ρ → Write) (row : Nat → ρ) :
    insert next write row s =
      (.ok (row (next s.view)), s.emit [write (row (next s.view))]) := by
  unfold insert
  rw [Txn.bind_ok (Txn.peek_run next s), Txn.bind_ok (Txn.execute_healthy h _)]
  rfl

end Db

end LeadPipe
