import LeadPipe.Db.Models
import LeadPipe.Framework.Constraints

/-!
# The constraints of the schema

The unique columns and the foreign keys of `app/db/models.py`, as PostgreSQL checks them at each
statement, and the rows an `UPDATE` of the object-relational mapper has to find. Lengths of columns
are left out.
-/

namespace LeadPipe

open Framework

inductive RowRef where
  | source (id : Nat)
  | record (id : Nat)
  | lead (id : Nat)
  | job (id : Nat)
  deriving DecidableEq

namespace Store

def Holds (st : Store) : RowRef → Prop
  | .source id => st.sources.Has id
  | .record id => st.records.Has id
  | .lead id => st.leads.Has id
  | .job id => st.jobs.Has id

structure Consistent (st : Store) : Prop where
  names : st.sources.Distinct Source.name
  recordKeys : st.records.Distinct fun r => (r.sourceId, r.recordKey)
  pairs : st.merges.Distinct fun m => (m.leadId, m.sourceRecordId)
  entries : st.suppressions.Distinct fun s => (s.kind, s.value)
  resultOnce : st.results.Distinct CollectionJobResult.jobId
  recordSource : st.records.Refers (fun r => some r.sourceId) st.sources
  recordJob : st.records.Refers SourceRecord.jobId st.jobs
  recordLead : st.records.Refers SourceRecord.leadId st.leads
  mergeLead : st.merges.Refers (fun m => some m.leadId) st.leads
  mergeRecord : st.merges.Refers (fun m => some m.sourceRecordId) st.records
  jobSource : st.jobs.Refers (fun j => some j.sourceId) st.sources
  resultJob : st.results.Refers (fun r => some r.jobId) st.jobs
  leadsFromOne : 1 ≤ st.leads.next ∧ ∀ l ∈ st.leads, 1 ≤ l.id

/-- No other record has the key, and what the row refers to is there. -/
structure AdmitsRecord (st : Store) (row : SourceRecord) : Prop where
  unique : st.records.Accepts (fun r => (r.sourceId, r.recordKey)) row
  source : st.sources.Has row.sourceId
  job : st.jobs.Resolves row.jobId
  lead : st.leads.Resolves row.leadId

structure AdmitsMerge (st : Store) (row : LeadMerge) : Prop where
  unique : st.merges.Accepts (fun m => (m.leadId, m.sourceRecordId)) row
  lead : st.leads.Has row.leadId
  record : st.records.Has row.sourceRecordId

structure AdmitsResult (st : Store) (row : CollectionJobResult) : Prop where
  unique : st.results.Accepts CollectionJobResult.jobId row
  job : st.jobs.Has row.jobId

/-- The statement violates no constraint: an inserted row has a number of its own, an updated one
is there, and the values are unique and refer to rows that are there. -/
def Admits (st : Store) : Write → Prop
  | .insertSource r => st.sources.next ≤ r.id ∧ st.sources.Accepts Source.name r
  | .updateSource r => st.sources.Has r.id ∧ st.sources.Accepts Source.name r
  | .insertRecord r => st.records.next ≤ r.id ∧ st.AdmitsRecord r
  | .updateRecord r => st.records.Has r.id ∧ st.AdmitsRecord r
  | .claimRecord recordId leadId => st.records.Has recordId ∧ st.leads.Has leadId
  | .insertLead r => st.leads.next ≤ r.id
  | .updateLead r => st.leads.Has r.id
  | .insertMerge r => st.merges.next ≤ r.id ∧ st.AdmitsMerge r
  | .updateMerge r => st.merges.Has r.id ∧ st.AdmitsMerge r
  | .insertJob r => st.jobs.next ≤ r.id ∧ st.sources.Has r.sourceId
  | .updateJob jobId _ => st.jobs.Has jobId
  | .insertResult r => st.results.next ≤ r.id ∧ st.AdmitsResult r
  | .updateResult r => st.results.Has r.id ∧ st.AdmitsResult r

variable {st : Store}

theorem consistent_empty : Consistent .empty where
  names a ha := absurd ha (Table.not_mem_empty a)
  recordKeys a ha := absurd ha (Table.not_mem_empty a)
  pairs a ha := absurd ha (Table.not_mem_empty a)
  entries a ha := absurd ha (Table.not_mem_empty a)
  resultOnce a ha := absurd ha (Table.not_mem_empty a)
  recordSource a ha := absurd ha (Table.not_mem_empty a)
  recordJob a ha := absurd ha (Table.not_mem_empty a)
  recordLead a ha := absurd ha (Table.not_mem_empty a)
  mergeLead a ha := absurd ha (Table.not_mem_empty a)
  mergeRecord a ha := absurd ha (Table.not_mem_empty a)
  jobSource a ha := absurd ha (Table.not_mem_empty a)
  resultJob a ha := absurd ha (Table.not_mem_empty a)
  leadsFromOne := ⟨le_rfl, fun a ha => absurd ha (Table.not_mem_empty a)⟩

theorem Holds.write {ref : RowRef} (h : st.Holds ref) (w : Write) : (w.apply st).Holds ref := by
  cases ref <;> cases w
  all_goals first
    | exact h
    | exact Table.Has.put h _
    | exact Table.Has.replace h _
    | refine Table.Has.update h ?_
  · exact fun _ => rfl
  · exact fun _ => rfl

namespace Consistent

theorem putSource (h : st.Consistent) {row : Source} (hname : st.sources.Accepts Source.name row) :
    Consistent { st with sources := st.sources.put row } :=
  { h with
    names := h.names.put hname
    recordSource := h.recordSource.into fun _ hk => hk.put row
    jobSource := h.jobSource.into fun _ hk => hk.put row }

theorem replaceSource (h : st.Consistent) {row : Source}
    (hname : st.sources.Accepts Source.name row) :
    Consistent { st with sources := st.sources.replace row } :=
  { h with
    names := h.names.replace hname
    recordSource := h.recordSource.into fun _ hk => hk.replace row
    jobSource := h.jobSource.into fun _ hk => hk.replace row }

theorem putRecord (h : st.Consistent) {row : SourceRecord} (hrow : st.AdmitsRecord row) :
    Consistent { st with records := st.records.put row } :=
  { h with
    recordKeys := h.recordKeys.put hrow.unique
    recordSource := h.recordSource.put fun i hi => by cases hi; exact hrow.source
    recordJob := h.recordJob.put hrow.job
    recordLead := h.recordLead.put hrow.lead
    mergeRecord := h.mergeRecord.into fun _ hk => hk.put row }

theorem replaceRecord (h : st.Consistent) {row : SourceRecord} (hrow : st.AdmitsRecord row) :
    Consistent { st with records := st.records.replace row } :=
  { h with
    recordKeys := h.recordKeys.replace hrow.unique
    recordSource := h.recordSource.replace fun i hi => by cases hi; exact hrow.source
    recordJob := h.recordJob.replace hrow.job
    recordLead := h.recordLead.replace hrow.lead
    mergeRecord := h.mergeRecord.into fun _ hk => hk.replace row }

theorem putMerge (h : st.Consistent) {row : LeadMerge} (hrow : st.AdmitsMerge row) :
    Consistent { st with merges := st.merges.put row } :=
  { h with
    pairs := h.pairs.put hrow.unique
    mergeLead := h.mergeLead.put fun i hi => by cases hi; exact hrow.lead
    mergeRecord := h.mergeRecord.put fun i hi => by cases hi; exact hrow.record }

theorem replaceMerge (h : st.Consistent) {row : LeadMerge} (hrow : st.AdmitsMerge row) :
    Consistent { st with merges := st.merges.replace row } :=
  { h with
    pairs := h.pairs.replace hrow.unique
    mergeLead := h.mergeLead.replace fun i hi => by cases hi; exact hrow.lead
    mergeRecord := h.mergeRecord.replace fun i hi => by cases hi; exact hrow.record }

theorem updateJobs (h : st.Consistent) {p : CollectionJob → Bool}
    {f : CollectionJob → CollectionJob} (hf : ∀ j, key (f j) = key j)
    (hsource : ∀ j, (f j).sourceId = j.sourceId) :
    Consistent { st with jobs := st.jobs.update p f hf } :=
  { h with
    recordJob := h.recordJob.into fun _ hk => hk.update hf
    jobSource := h.jobSource.update hf fun j => .inl (congrArg some (hsource j))
    resultJob := h.resultJob.into fun _ hk => hk.update hf }

theorem moveRecords (h : st.Consistent) {p : SourceRecord → Bool} {f : SourceRecord → SourceRecord}
    (hf : ∀ r, key (f r) = key r)
    (hsame : ∀ r, (f r).sourceId = r.sourceId ∧ (f r).recordKey = r.recordKey ∧
      (f r).jobId = r.jobId)
    (hlead : ∀ r, st.leads.Resolves (f r).leadId) :
    Consistent { st with records := st.records.update p f hf } :=
  { h with
    recordKeys := h.recordKeys.update hf fun r => by rw [(hsame r).1, (hsame r).2.1]
    recordSource := h.recordSource.update hf fun r => .inl (congrArg some (hsame r).1)
    recordJob := h.recordJob.update hf fun r => .inl (hsame r).2.2
    recordLead := h.recordLead.update hf fun r => .inr (hlead r)
    mergeRecord := h.mergeRecord.into fun _ hk => hk.update hf }

theorem putSuppression (h : st.Consistent) {row : Suppression}
    (hrow : st.suppressions.Accepts (fun s => (s.kind, s.value)) row) :
    Consistent { st with suppressions := st.suppressions.put row } :=
  { h with entries := h.entries.put hrow }

theorem eraseSuppressions (h : st.Consistent) (p : Suppression → Bool) :
    Consistent { st with suppressions := st.suppressions.erase p } :=
  { h with entries := h.entries.erase p }

theorem write (h : st.Consistent) {w : Write} (hw : st.Admits w) : (w.apply st).Consistent := by
  cases w with
  | insertSource r => exact h.putSource hw.2
  | updateSource r => exact h.replaceSource hw.2
  | insertRecord r => exact h.putRecord hw.2
  | updateRecord r => exact h.replaceRecord hw.2
  | claimRecord recordId leadId =>
      exact h.moveRecords _ (fun _ => ⟨rfl, rfl, rfl⟩) fun _ i hi => by cases hi; exact hw.2
  | insertLead r =>
      exact { h with
        recordLead := h.recordLead.into fun _ hk => hk.put r
        mergeLead := h.mergeLead.into fun _ hk => hk.put r
        leadsFromOne := ⟨h.leadsFromOne.1.trans (le_max_left _ _), fun l hl => by
          rcases Table.mem_put.mp hl with rfl | ⟨hl, -⟩
          · exact h.leadsFromOne.1.trans hw
          · exact h.leadsFromOne.2 l hl⟩ }
  | updateLead r =>
      exact { h with
        recordLead := h.recordLead.into fun _ hk => hk.replace r
        mergeLead := h.mergeLead.into fun _ hk => hk.replace r
        leadsFromOne := ⟨h.leadsFromOne.1, fun l hl => by
          rcases Table.mem_replace.mp hl with ⟨rfl, a, ha, hkey⟩ | ⟨hl, -⟩
          · exact (h.leadsFromOne.2 a ha).trans hkey.le
          · exact h.leadsFromOne.2 l hl⟩ }
  | insertMerge r => exact h.putMerge hw.2
  | updateMerge r => exact h.replaceMerge hw.2
  | insertJob r =>
      exact { h with
        recordJob := h.recordJob.into fun _ hk => hk.put r
        jobSource := h.jobSource.put fun i hi => by cases hi; exact hw.2
        resultJob := h.resultJob.into fun _ hk => hk.put r }
  | updateJob jobId changes => exact h.updateJobs _ fun _ => rfl
  | insertResult r =>
      exact { h with
        resultOnce := h.resultOnce.put hw.2.unique
        resultJob := h.resultJob.put fun i hi => by cases hi; exact hw.2.job }
  | updateResult r =>
      exact { h with
        resultOnce := h.resultOnce.replace hw.2.unique
        resultJob := h.resultJob.replace fun i hi => by cases hi; exact hw.2.job }

end Consistent

/-- The constraints hold, and these rows are there. -/
def Supports (rows : List RowRef) (st : Store) : Prop := st.Consistent ∧ ∀ ref ∈ rows, st.Holds ref

theorem Supports.write {rows : List RowRef} (h : st.Supports rows) {w : Write} (hw : st.Admits w) :
    (w.apply st).Supports rows :=
  ⟨h.1.write hw, fun ref href => (h.2 ref href).write w⟩

theorem Supports.mono {rows rows' : List RowRef} (h : st.Supports rows) (hsub : rows' ⊆ rows) :
    st.Supports rows' :=
  ⟨h.1, fun ref href => h.2 ref (hsub href)⟩

theorem Supports.append {rows rows' : List RowRef} (h : st.Supports rows)
    (h' : ∀ ref ∈ rows', st.Holds ref) : st.Supports (rows' ++ rows) :=
  ⟨h.1, List.forall_mem_append.mpr ⟨h', h.2⟩⟩

end Store

end LeadPipe
