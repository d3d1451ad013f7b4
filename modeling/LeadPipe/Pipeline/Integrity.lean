import LeadPipe.Deduplication.MergeLaws
import LeadPipe.Pipeline.Effect

/-!
# Runs of completed calls keep the tables sound

`Sound` is what the schema promises and what the runner adds to it: record keys are unique,
every record has its source and a lead, links refer to rows that were handed out, and every
stored record once passed validation without raising.
-/

namespace LeadPipe

open Framework

variable (env : Platform)

namespace LeadRepository

variable {st st' : Store}

theorem mem_candidatesFor {leadId : Nat} {c : Candidate} :
    c ∈ candidatesFor st leadId ↔
      ∃ r ∈ st.records, r.leadId = some leadId ∧ toCandidate st r = some c := by
  simp [candidatesFor, List.mem_filterMap, and_assoc]

theorem toCandidate_some {r : SourceRecord} {c : Candidate} (h : toCandidate st r = some c) :
    ∃ source, st.sources.find? r.sourceId = some source ∧
      c = ⟨r.toNormalized source.name, Text.ofNat r.id, source.priority⟩ := by
  obtain ⟨source, hsource, rfl⟩ := Option.map_eq_some_iff.mp h
  exact ⟨source, hsource, rfl⟩

theorem toCandidate_origin {r : SourceRecord} {c : Candidate} (h : toCandidate st r = some c) :
    c.origin = Text.ofNat r.id := by
  obtain ⟨source, -, rfl⟩ := toCandidate_some h
  rfl

theorem candidatesFor_numbered (st : Store) (leadId : Nat) :
    Numbered (candidatesFor st leadId) := by
  refine List.pairwise_filterMap.mpr ((st.records.select_sorted _).imp ?_)
  intro a b hab c hc d hd
  rw [toCandidate_origin hc, toCandidate_origin hd]
  intro hkey
  have hid : a.id = b.id := originKey_ofNat_injective hkey
  have hlt : a.id < b.id := hab
  omega

theorem candidatesFor_congr {leadId : Nat} (hsources : st'.sources = st.sources)
    (hrecords : ∀ r, (r ∈ st'.records ∧ r.leadId = some leadId) ↔
      (r ∈ st.records ∧ r.leadId = some leadId)) :
    candidatesFor st' leadId = candidatesFor st leadId := by
  have hselect : (st'.records.select fun r => r.leadId == some leadId) =
      st.records.select fun r => r.leadId == some leadId := by
    apply Table.select_congr
    simpa using hrecords
  have hcandidate : toCandidate st' = toCandidate st := by
    funext r
    simp only [toCandidate, hsources]
  rw [candidatesFor, candidatesFor, hselect, hcandidate]

end LeadRepository

def Source.csv : Source := ⟨1, "csv".toList, "csv".toList, 0, true, []⟩

namespace Store

def ingested (st : Store) (call : IngestCall) : Option Store :=
  match ingest env call st.session with
  | (.ok _, s) => some s.view
  | (.error _, _) => none

def collected : Store → List IngestCall → Option Store
  | st, [] => some st
  | st, call :: calls => (st.ingested env call).bind fun st' => collected st' calls

theorem collected_append (st : Store) (calls rest : List IngestCall) :
    st.collected env (calls ++ rest) =
      (st.collected env calls).bind fun st' => st'.collected env rest := by
  induction calls generalizing st with
  | nil => rfl
  | cons call calls ih =>
      simp only [List.cons_append, collected, Option.bind_assoc]
      congr 1
      funext st'
      exact ih st'

/-- Nothing is stored but the sources that will be collected from. -/
def ofSources (sources : Table Source) : Store := { empty with sources }

def Raises (url : Option Text) : Prop := ∃ e, validateUrlField env url = .error e

/-- Every link names a lead that was handed out, though it may be gone. -/
def LinksIssued (st : Store) : Prop := ∀ m ∈ st.merges, m.leadId < st.leads.next

structure Sound (st : Store) : Prop where
  unique : ∀ r ∈ st.records, ∀ r' ∈ st.records, r.sourceId = r'.sourceId →
    r.recordKey = r'.recordKey → r = r'
  sourced : ∀ r ∈ st.records, ∃ s ∈ st.sources, s.id = r.sourceId
  owned : ∀ r ∈ st.records, ∃ l ∈ st.leads, r.leadId = some l.id
  linkedLead : st.LinksIssued
  linkedRecord : ∀ m ∈ st.merges, m.sourceRecordId < st.records.next
  gradable : ∀ r ∈ st.records, ¬Raises env r.normalized.website ∧ ¬Raises env r.sourceUrl

theorem Sound.ofSources (sources : Table Source) : Sound env (ofSources sources) where
  unique r hr := absurd hr (Table.not_mem_empty r)
  sourced r hr := absurd hr (Table.not_mem_empty r)
  owned r hr := absurd hr (Table.not_mem_empty r)
  linkedLead m hm := absurd hm (Table.not_mem_empty m)
  linkedRecord m hm := absurd hm (Table.not_mem_empty m)
  gradable r hr := absurd hr (Table.not_mem_empty r)

variable {env} {st st' : Store} {call : IngestCall} {validation : LeadValidation} {row : Lead}

theorem ingested_writes (h : st.ingested env call = some st') :
    ∃ ws, Ingests env st call ws ∧ st' = Session.replay ws st := by
  unfold ingested at h
  rcases hrun : ingest env call st.session with ⟨e | a, s⟩
  · rw [hrun] at h
    cases h
  · rw [hrun] at h
    obtain rfl : s.view = st' := by simpa using h
    obtain ⟨ws, hi, hview, -, -⟩ := ingest_completes env ⟨rfl, rfl⟩ hrun
    exact ⟨ws, hi, hview⟩

theorem ingested_cases (h : st.ingested env call = some st') :
    (call.blocked env = true ∧ st' = st) ∨ (call.blocked env = false ∧
      ∃ validation row, Settles env st call validation row st') := by
  obtain ⟨ws, hi, rfl⟩ := ingested_writes h
  cases hb : call.blocked env with
  | false => exact .inr ⟨rfl, hi.settles hb⟩
  | true =>
      cases hi with
      | suppressed => exact .inl ⟨rfl, rfl⟩
      | placed unblocked => simp [hb] at unblocked

theorem upserted_sourceId (env : Platform) (st : Store) (call : IngestCall)
    (validation : LeadValidation) :
    (st.upserted env call validation).sourceId = call.source.id := by
  cases h : st.recordOf env call with
  | none => simp [upserted, h, SourceRecordRepository.fill, SourceRecordRepository.blank]
  | some r => simp [upserted, h, SourceRecordRepository.fill, (recordOf_some h).2.1]

theorem upserted_recordKey (env : Platform) (st : Store) (call : IngestCall)
    (validation : LeadValidation) :
    (st.upserted env call validation).recordKey = call.recordKey env := by
  cases h : st.recordOf env call with
  | none => simp [upserted, h, SourceRecordRepository.fill, SourceRecordRepository.blank]
  | some r => simp [upserted, h, SourceRecordRepository.fill, (recordOf_some h).2.2]

theorem recordId_eq {r : SourceRecord} (h : st.recordOf env call = some r) :
    st.recordId env call = r.id := by
  simp [recordId, h]

theorem recordId_fresh (h : st.recordOf env call = none) :
    st.recordId env call = st.records.next := by
  simp [recordId, h]

/-- `uq_source_records_key`, as far as the runner needs it. -/
def UniqueKeys (st : Store) : Prop :=
  ∀ r ∈ st.records, ∀ r' ∈ st.records, r.sourceId = r'.sourceId →
    r.recordKey = r'.recordKey → r = r'

theorem UniqueKeys.eq_recordId (h : st.UniqueKeys) {r : SourceRecord} (hr : r ∈ st.records)
    (hsource : r.sourceId = call.source.id) (hkey : r.recordKey = call.recordKey env) :
    r.id = st.recordId env call := by
  cases hrec : st.recordOf env call with
  | none => exact absurd ⟨hsource, hkey⟩ (SourceRecordRepository.byKey_none hrec r hr)
  | some r' =>
      obtain ⟨hmem, hsource', hkey'⟩ := recordOf_some hrec
      have heq : r = r' :=
        h r hr r' hmem (hsource.trans hsource'.symm) (hkey.trans hkey'.symm)
      rw [heq, recordId_eq hrec]

theorem Sound.eq_recordId (h : Sound env st) {r : SourceRecord} (hr : r ∈ st.records)
    (hsource : r.sourceId = call.source.id) (hkey : r.recordKey = call.recordKey env) :
    r.id = st.recordId env call :=
  UniqueKeys.eq_recordId h.unique hr hsource hkey

theorem UniqueKeys.written (h : st.UniqueKeys) {written : SourceRecord}
    (hrecords : ∀ r, r ∈ st'.records ↔
      r = written ∨ (r ∈ st.records ∧ r.id ≠ st.recordId env call))
    (hsource : written.sourceId = call.source.id)
    (hkey : written.recordKey = call.recordKey env) : st'.UniqueKeys := by
  have hapart {r : SourceRecord} (hr : r ∈ st.records ∧ r.id ≠ st.recordId env call)
      (hsrc : r.sourceId = call.source.id) (hk : r.recordKey = call.recordKey env) : False :=
    hr.2 (h.eq_recordId hr.1 hsrc hk)
  intro r hr r' hr' hsrc hk
  rcases (hrecords r).mp hr with rfl | hr <;> rcases (hrecords r').mp hr' with rfl | hr'
  · rfl
  · exact (hapart hr' (hsrc.symm.trans hsource) (hk.symm.trans hkey)).elim
  · exact (hapart hr (hsrc.trans hsource) (hk.trans hkey)).elim
  · exact h r hr.1 r' hr'.1 hsrc hk

theorem LinksIssued.settles (h : LinksIssued st)
    (hs : Settles env st call validation row st') : LinksIssued st' := by
  intro m hm
  have hnext := hs.nextLead
  rcases hs.merges m hm with ⟨m₀, hm₀, hlead, -⟩ | ⟨-, hlead | ⟨l, hl, hlead⟩⟩
  · have := h m₀ hm₀
    omega
  · omega
  · have : l.id < st.leads.next := Table.key_lt_next hl
    omega

theorem linkedRecord_settles (h : ∀ m ∈ st.merges, m.sourceRecordId < st.records.next)
    (hs : Settles env st call validation row st') :
    ∀ m ∈ st'.merges, m.sourceRecordId < st'.records.next := by
  intro m hm
  have hnext := hs.nextRecord
  rcases hs.merges m hm with ⟨m₀, hm₀, -, hrecord⟩ | ⟨hrecord, -⟩
  · have := h m₀ hm₀
    omega
  · omega

theorem LinksIssued.unlinked (h : LinksIssued st) (recordId : Nat) :
    LeadRepository.linkBetween st st.leads.next recordId = none := by
  apply LeadRepository.linkBetween_none
  rintro m hm ⟨hlead, -⟩
  have hlt := h m hm
  omega

theorem Sound.unlinked (h : Sound env st) (hnew : st.recordOf env call = none) (leadId : Nat) :
    LeadRepository.linkBetween st leadId (st.recordId env call) = none := by
  apply LeadRepository.linkBetween_none
  rintro m hm ⟨-, hrecord⟩
  have hlt := h.linkedRecord m hm
  have hid := recordId_fresh hnew
  omega

theorem Sound.attached_lead (h : Sound env st) (hs : Settles env st call validation row st') :
    ∃ l ∈ st'.leads, st.attached env call = some l.id := by
  have hrow : row ∈ st'.leads := (hs.leads row).mpr (.inl rfl)
  have hcurrent {r : SourceRecord} (hr : st.recordOf env call = some r) :
      ∃ l ∈ st'.leads, r.leadId = some l.id := by
    obtain ⟨l, hl, hlead⟩ := h.owned r (recordOf_some hr).1
    obtain ⟨l', hl', hid⟩ := hs.lead_survives hl
    exact ⟨l', hl', by rw [hlead, hid]⟩
  have htarget := hs.lands.lead.1
  cases hd : st.decision env call with
  | join existing result =>
      cases hr : st.recordOf env call with
      | none =>
          refine ⟨row, hrow, ?_⟩
          simp [attached, hd, h.unlinked hr, htarget, target]
      | some r =>
          by_cases hlink :
              (LeadRepository.linkBetween st existing.id (st.recordId env call)).isSome = true
          · obtain ⟨l, hl, hlead⟩ := hcurrent hr
            exact ⟨l, hl, by simp [attached, hd, hlink, hr, hlead]⟩
          · refine ⟨row, hrow, ?_⟩
            simp [attached, hd, hlink, htarget, target]
  | refresh own =>
      obtain ⟨-, hbind⟩ := ownOf_some (decision_refresh hd)
      exact ⟨row, hrow, by simp [attached, hd, hbind, htarget, target]⟩
  | found =>
      have hnone := h.linkedLead.unlinked (st.recordId env call)
      exact ⟨row, hrow, by simp [attached, hd, hnone, htarget, target]⟩

theorem not_raises_of_validates {lead : NormalizedLead}
    (h : validateLead env lead = .ok validation) :
    ¬Raises env lead.website ∧ ¬Raises env lead.source.url := by
  unfold validateLead at h
  constructor
  · rintro ⟨e, he⟩
    rw [he] at h
    cases h
  · rintro ⟨e, he⟩
    cases hw : validateUrlField env lead.website with
    | error e => rw [hw] at h; cases h
    | ok w => rw [hw, he] at h; cases h

theorem Sound.step (h : Sound env st) (hsource : call.source ∈ st.sources)
    (hs : Settles env st call validation row st') : Sound env st' where
  unique := UniqueKeys.written h.unique hs.records (upserted_sourceId env st call validation)
    (upserted_recordKey env st call validation)
  sourced := by
    intro r hr
    rw [hs.sources]
    rcases (hs.records r).mp hr with rfl | hr
    · exact ⟨call.source, hsource, (upserted_sourceId env st call validation).symm⟩
    · exact h.sourced r hr.1
  owned := by
    intro r hr
    rcases (hs.records r).mp hr with rfl | hr
    · exact h.attached_lead hs
    · obtain ⟨l, hl, hlead⟩ := h.owned r hr.1
      obtain ⟨l', hl', hid⟩ := hs.lead_survives hl
      exact ⟨l', hl', by rw [hlead, hid]⟩
  linkedLead := h.linkedLead.settles hs
  linkedRecord := linkedRecord_settles h.linkedRecord hs
  gradable := by
    intro r hr
    rcases (hs.records r).mp hr with rfl | hr
    · exact not_raises_of_validates hs.validates
    · exact h.gradable r hr.1

theorem Sound.ingested (h : Sound env st) (hsource : call.source ∈ st.sources)
    (hrun : st.ingested env call = some st') : Sound env st' := by
  rcases ingested_cases hrun with ⟨-, rfl⟩ | ⟨-, validation, row, hs⟩
  · exact h
  · exact h.step hsource hs

theorem validates_of_not_raises {lead : NormalizedLead} (hw : ¬Raises env lead.website)
    (hs : ¬Raises env lead.source.url) : ∃ validation, validateLead env lead = .ok validation := by
  unfold validateLead
  cases hw' : validateUrlField env lead.website with
  | error e => exact absurd ⟨e, hw'⟩ hw
  | ok w =>
      cases hs' : validateUrlField env lead.source.url with
      | error e => exact absurd ⟨e, hs'⟩ hs
      | ok u => exact ⟨_, rfl⟩

theorem Sound.rebuilds (h : Sound env st) (hv : validateLead env (call.lead env) = .ok validation)
    (lead : Lead) :
    ∃ row, ((st.upsertWrite env call validation).apply st).remerged env call lead
      (st.recordId env call) = .ok row := by
  set v := (st.upsertWrite env call validation).apply st with hstored
  have hgradable : ∀ c ∈ v.rebuilt env call lead.id (st.recordId env call),
      ¬Raises env c.lead.website ∧ ¬Raises env c.lead.source.url := by
    intro c hc
    rcases List.mem_append.mp hc with hc | hc
    · obtain ⟨r, hr, -, hc⟩ := LeadRepository.mem_candidatesFor.mp (List.mem_of_mem_filter hc)
      obtain ⟨source, -, rfl⟩ := LeadRepository.toCandidate_some hc
      rcases mem_upsertWrite_records.mp hr with rfl | ⟨hr, -⟩
      · exact not_raises_of_validates hv
      · exact h.gradable r hr
    · obtain rfl : c = ⟨call.lead env, Text.ofNat (st.recordId env call), call.priority⟩ := by
        simpa using hc
      exact not_raises_of_validates hv
  obtain ⟨merged, hmerge⟩ : ∃ merged,
      merge (v.rebuilt env call lead.id (st.recordId env call)) = some merged := by
    cases hm : merge (v.rebuilt env call lead.id (st.recordId env call)) with
    | none =>
        have hnil := merge_eq_none.mp hm
        simp [rebuilt, withIncoming] at hnil
    | some merged => exact ⟨merged, rfl⟩
  obtain ⟨hwebsite, c, hc, hsource⟩ := merge_website hmerge
  have hw : ¬Raises env merged.lead.website := by
    rcases hwebsite with hnone | ⟨c, hc, hsame⟩
    · rw [hnone]
      rintro ⟨e, he⟩
      cases he
    · rw [hsame]
      exact (hgradable c hc).1
  have hu : ¬Raises env merged.lead.source.url := by
    rw [hsource]
    exact (hgradable c hc).2
  obtain ⟨graded, hgraded⟩ := validates_of_not_raises hw hu
  exact ⟨_, (remerged_ok env _ _).mpr ⟨merged, graded, hmerge, hgraded, rfl⟩⟩

/-- On sound tables a call completes when its own record is graded without raising. -/
theorem Sound.completes (h : Sound env st)
    (hv : call.blocked env = true ∨ ∃ validation, validateLead env (call.lead env) = .ok validation) :
    ∃ st', st.ingested env call = some st' := by
  unfold Store.ingested
  rcases hrun : ingest env call st.session with ⟨e | a, s⟩
  · obtain ⟨ws, ha, -⟩ := ingest_raises env ⟨rfl, rfl⟩ hrun
    have hopen : call.blocked env = false := by cases ha <;> assumption
    obtain ⟨validation, hv⟩ := hv.resolve_left (by simp [hopen])
    cases ha with
    | ungraded _ stuck => simp [hv] at stuck
    | @unmerged validation' target e _ validates decided stuck =>
        obtain ⟨row, hrow⟩ := h.rebuilds validates target
        have hok : Except.error e = .ok row := stuck.symm.trans hrow
        cases hok
  · exact ⟨_, rfl⟩

end Store

end LeadPipe
