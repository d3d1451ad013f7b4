import LeadPipe.Pipeline.Integrity

/-!
# Lead rows are derived from their records

Every branch of `_ingest` rebuilds the lead the record ends up with. The lead a record leaves
is never rebuilt, so a lead row is the merge of its records for as long as no call takes a
record away from its lead.
-/

namespace LeadPipe

open Framework

variable {env : Platform} {st st' : Store} {call : IngestCall} {validation : LeadValidation}
  {row : Lead}

namespace Store

/-- The call does not merge a record that belongs to a lead into another lead. -/
def keepsOwner (env : Platform) (st : Store) (call : IngestCall) : Bool :=
  call.blocked env ||
    match st.decision env call with
    | .join _ _ => (st.ownOf env call).isNone
    | _ => true

/-- No call of a run does. -/
def keepsOwners (env : Platform) : Store → List IngestCall → Bool
  | _, [] => true
  | st, call :: calls =>
      st.keepsOwner env call && (st.ingested env call).all fun st' => keepsOwners env st' calls

theorem keepsOwners_append {calls rest : List IngestCall}
    (hkeeps : st.keepsOwners env (calls ++ rest) = true)
    (hrun : st.collected env calls = some st') :
    st.keepsOwners env calls = true ∧ st'.keepsOwners env rest = true := by
  induction calls generalizing st with
  | nil =>
      obtain rfl : st = st' := by simpa [Store.collected] using hrun
      exact ⟨rfl, hkeeps⟩
  | cons call calls ih =>
      obtain ⟨st₁, hstep, hrest⟩ := Option.bind_eq_some_iff.mp hrun
      simp only [List.cons_append, keepsOwners, hstep, Option.all_some, Bool.and_eq_true] at hkeeps ⊢
      obtain ⟨hcalls, hrest⟩ := ih hkeeps.2 hrest
      exact ⟨⟨hkeeps.1, hcalls⟩, hrest⟩

/-- Every lead owns a record, and its columns are the merge of the records it owns. -/
def Derived (st : Store) : Prop :=
  ∀ l ∈ st.leads, (∃ r ∈ st.records, r.leadId = some l.id) ∧
    mergedColumns (LeadRepository.candidatesFor st l.id) = some l.toLeadPayload

instance (st : Store) : Decidable st.Derived :=
  inferInstanceAs (Decidable (∀ l ∈ st.leads, _ ∧ _))

theorem ownOf_none (h : Sound env st) (hown : st.ownOf env call = none) :
    st.recordOf env call = none := by
  cases hr : st.recordOf env call with
  | none => rfl
  | some r =>
      obtain ⟨l, hl, hlead⟩ := h.owned r (recordOf_some hr).1
      have hfind : st.leads.find? l.id = some l := Table.find?_eq_some.mpr ⟨hl, rfl⟩
      simp [ownOf, hr, hlead, hfind] at hown

theorem keepsOwner_new (hnew : st.recordOf env call = none) : st.keepsOwner env call = true := by
  unfold keepsOwner
  cases st.decision env call <;> simp [ownOf, hnew]

/-- A record that keeps its owner ends up with the lead the call writes, and if it was there
before it was there already. -/
theorem attached_of_keepsOwner (h : Sound env st) (hopen : call.blocked env = false)
    (hkeeps : st.keepsOwner env call = true) (hs : Settles env st call validation row st') :
    st.attached env call = some row.id ∧
      ∀ r, st.recordOf env call = some r → r.leadId = some row.id := by
  have htarget := hs.lands.lead.1
  simp only [keepsOwner, hopen, Bool.false_or] at hkeeps
  cases hd : st.decision env call with
  | join existing result =>
      simp only [hd, Option.isNone_iff_eq_none] at hkeeps
      have hnew := ownOf_none h hkeeps
      simp [attached, hd, h.unlinked hnew, htarget, target, hnew]
  | refresh own =>
      obtain ⟨-, hcurrent⟩ := ownOf_some (decision_refresh hd)
      refine ⟨by simp [attached, hd, hcurrent, htarget, target], fun r hr => ?_⟩
      simpa [hr, htarget, target, hd] using hcurrent
  | found =>
      have hnew := ownOf_none h (decision_found hd)
      simp [attached, hd, h.unlinked hnew, htarget, target, hnew]

def incoming (env : Platform) (st : Store) (call : IngestCall) : Candidate :=
  ⟨call.lead env, Text.ofNat (st.recordId env call), call.priority⟩

theorem upserted_candidate (env : Platform) (validation : LeadValidation)
    (hsource : call.source ∈ st.sources)
    (hpriority : call.priority = call.source.priority) (leadId : Option Nat) :
    ∃ c, LeadRepository.toCandidate st
        ((st.upserted env call validation).ownedBy leadId) = some c ∧
      c.unsourced = (st.incoming env call).unsourced := by
  have hfind : st.sources.find? call.source.id = some call.source :=
    Table.find?_eq_some.mpr ⟨hsource, rfl⟩
  have hid := upserted_id env st call validation
  have hsourceId := upserted_sourceId env st call validation
  refine ⟨_, by simp [LeadRepository.toCandidate, SourceRecord.ownedBy, hsourceId, hfind]; rfl, ?_⟩
  simp only [Candidate.unsourced, incoming, SourceRecord.toNormalized, hpriority, ← hid]
  rfl

theorem upsertWrite_toCandidate (env : Platform) (call : IngestCall)
    (validation : LeadValidation) :
    LeadRepository.toCandidate ((st.upsertWrite env call validation).apply st) =
      LeadRepository.toCandidate st := by
  have hsources : ((st.upsertWrite env call validation).apply st).sources = st.sources := by
    unfold upsertWrite
    cases st.recordOf env call <;> rfl
  funext r
  simp only [LeadRepository.toCandidate, hsources]

section Step

variable (h : Sound env st) (hopen : call.blocked env = false)
  (hkeeps : st.keepsOwner env call = true) (hs : Settles env st call validation row st')
include h hopen hkeeps hs

private theorem other_records {leadId : Nat} (hne : leadId ≠ row.id) (r : SourceRecord) :
    (r ∈ st'.records ∧ r.leadId = some leadId) ↔ (r ∈ st.records ∧ r.leadId = some leadId) := by
  obtain ⟨hattached, hbefore⟩ := attached_of_keepsOwner h hopen hkeeps hs
  constructor
  · rintro ⟨hr, hlead⟩
    rcases (hs.records r).mp hr with rfl | ⟨hr, -⟩
    · have hsame : some leadId = some row.id := hlead.symm.trans hattached
      exact absurd (Option.some.inj hsame) hne
    · exact ⟨hr, hlead⟩
  · rintro ⟨hr, hlead⟩
    refine ⟨(hs.records r).mpr (.inr ⟨hr, fun hid => ?_⟩), hlead⟩
    cases hrec : st.recordOf env call with
    | none =>
        have hlt : r.id < st.records.next := Table.key_lt_next hr
        have hfresh := recordId_fresh hrec
        omega
    | some r' =>
        have hsame : r = r' :=
          Table.eq_of_key hr (recordOf_some hrec).1 (hid.trans (recordId_eq hrec))
        have hrow := hbefore r' hrec
        rw [← hsame, hlead] at hrow
        exact hne (Option.some.inj hrow)

private theorem row_records (r : SourceRecord) :
    (r ∈ st'.records ∧ r.leadId = some row.id) ↔
      (r = (st.upserted env call validation).ownedBy (some row.id)) ∨
        (r ∈ st.records ∧ r.leadId = some row.id ∧ r.id ≠ st.recordId env call) := by
  obtain ⟨hattached, -⟩ := attached_of_keepsOwner h hopen hkeeps hs
  rw [hs.records, hattached]
  constructor
  · rintro ⟨rfl | ⟨hr, hid⟩, hlead⟩
    · exact .inl rfl
    · exact .inr ⟨hr, hlead, hid⟩
  · rintro (rfl | ⟨hr, hlead, hid⟩)
    · exact ⟨.inl rfl, rfl⟩
    · exact ⟨.inr ⟨hr, hid⟩, hlead⟩

private theorem row_merge (hsource : call.source ∈ st.sources)
    (hpriority : call.priority = call.source.priority) {kept : List Candidate}
    (hnumbered : Numbered kept)
    (hkept : ∀ c, c ∈ kept ↔ ∃ r ∈ st.records, r.leadId = some row.id ∧
      r.id ≠ st.recordId env call ∧ LeadRepository.toCandidate st r = some c) :
    mergedColumns (LeadRepository.candidatesFor st' row.id) =
      mergedColumns (kept ++ [st.incoming env call]) := by
  have hcandidate : LeadRepository.toCandidate st' = LeadRepository.toCandidate st := by
    funext r
    simp only [LeadRepository.toCandidate, hs.sources]
  obtain ⟨own, hown, hsame⟩ := upserted_candidate env validation
    hsource hpriority (some row.id)
  have hmem (c : Candidate) : c ∈ LeadRepository.candidatesFor st' row.id ↔ c = own ∨ c ∈ kept := by
    rw [LeadRepository.mem_candidatesFor, hcandidate, hkept]
    constructor
    · rintro ⟨r, hr, hlead, hc⟩
      rcases (row_records h hopen hkeeps hs r).mp ⟨hr, hlead⟩ with rfl | ⟨hr, hlead, hid⟩
      · exact .inl (Option.some.inj (hc.symm.trans hown))
      · exact .inr ⟨r, hr, hlead, hid, hc⟩
    · rintro (rfl | ⟨r, hr, hlead, hid, hc⟩)
      · obtain ⟨hr, hlead⟩ := (row_records h hopen hkeeps hs _).mpr (.inl rfl)
        exact ⟨_, hr, hlead, hown⟩
      · obtain ⟨hr, hlead⟩ := (row_records h hopen hkeeps hs r).mpr (.inr ⟨hr, hlead, hid⟩)
        exact ⟨r, hr, hlead, hc⟩
  apply mergedColumns_congr (LeadRepository.candidatesFor_numbered st' row.id)
  · refine List.pairwise_append.mpr ⟨hnumbered, List.pairwise_singleton _ _, ?_⟩
    intro c hc d hd
    obtain rfl : d = st.incoming env call := by simpa using hd
    obtain ⟨r, -, -, hid, hr⟩ := (hkept c).mp hc
    rw [LeadRepository.toCandidate_origin hr]
    exact fun hkey => hid (originKey_ofNat_injective hkey)
  · intro c
    simp only [List.mem_map, hmem, List.mem_append, List.mem_singleton]
    constructor
    · rintro ⟨d, rfl | hd, rfl⟩
      · exact ⟨_, .inr rfl, hsame.symm⟩
      · exact ⟨d, .inl hd, rfl⟩
    · rintro ⟨d, hd | rfl, rfl⟩
      · exact ⟨d, .inr hd, rfl⟩
      · exact ⟨own, .inl rfl, hsame⟩

private theorem row_columns (hsource : call.source ∈ st.sources)
    (hpriority : call.priority = call.source.priority) :
    mergedColumns (LeadRepository.candidatesFor st' row.id) = some row.toLeadPayload := by
  cases hs.lands with
  | @rebuilt lead row decided rebuilds =>
      obtain ⟨merged, graded, hmerge, -, rfl⟩ := (remerged_ok env _ _).mp rebuilds
      refine Eq.trans (row_merge h hopen hkeeps hs hsource hpriority ?_ ?_)
        (mergedColumns_some hmerge)
      · exact (LeadRepository.candidatesFor_numbered _ lead.id).filter _
      · intro c
        simp only [List.mem_filter, LeadRepository.mem_candidatesFor, bne_iff_ne]
        constructor
        · rintro ⟨⟨r, hr, hlead, hc⟩, horigin⟩
          rw [upsertWrite_toCandidate] at hc
          rw [LeadRepository.toCandidate_origin hc] at horigin
          have hid : r.id ≠ st.recordId env call := fun hid => horigin (by rw [hid])
          rcases mem_upsertWrite_records.mp hr with rfl | ⟨hr, -⟩
          · exact absurd (upserted_id env st call validation) hid
          · exact ⟨r, hr, hlead, hid, hc⟩
        · rintro ⟨r, hr, hlead, hid, hc⟩
          rw [← upsertWrite_toCandidate env call validation] at hc
          refine ⟨⟨r, mem_upsertWrite_records.mpr (.inr ⟨hr, hid⟩), hlead, hc⟩, fun horigin => ?_⟩
          rw [LeadRepository.toCandidate_origin hc] at horigin
          exact hid (originKey_ofNat_injective (congrArg originKey horigin))
  | @founded merged decided merges =>
      refine Eq.trans (row_merge h hopen hkeeps hs hsource hpriority .nil fun c => ?_)
        (mergedColumns_some merges)
      simp only [List.not_mem_nil, false_iff]
      rintro ⟨r, hr, hlead, -, -⟩
      obtain ⟨l, hl, hlead'⟩ := h.owned r hr
      have hlt : l.id < st.leads.next := Table.key_lt_next hl
      have hid : l.id = st.leads.next := Option.some.inj (hlead'.symm.trans hlead)
      omega

/-- One call that takes no record away keeps every lead derived. -/
theorem Derived.settles (hderived : st.Derived) (hsource : call.source ∈ st.sources)
    (hpriority : call.priority = call.source.priority) : st'.Derived := by
  intro l hl
  rcases (hs.leads l).mp hl with rfl | ⟨hl, hne⟩
  · obtain ⟨hr, hlead⟩ := (row_records h hopen hkeeps hs _).mpr (.inl rfl)
    exact ⟨⟨_, hr, hlead⟩, row_columns h hopen hkeeps hs hsource hpriority⟩
  · obtain ⟨⟨r, hr, hlead⟩, hcolumns⟩ := hderived l hl
    have hsame := other_records h hopen hkeeps hs hne
    obtain ⟨hr', hlead'⟩ := (hsame r).mpr ⟨hr, hlead⟩
    refine ⟨⟨r, hr', hlead'⟩, ?_⟩
    rwa [LeadRepository.candidatesFor_congr hs.sources hsame]

end Step

/-- Calls a run may make: their sources are configured, with fixed priorities. -/
def FromSources (sources : Table Source) (calls : List IngestCall) : Prop :=
  ∀ call ∈ calls, call.source ∈ sources ∧ call.priority = call.source.priority

theorem Derived.collected {calls : List IngestCall} (h : Sound env st) (hderived : st.Derived)
    (hcalls : FromSources st.sources calls) (hkeeps : keepsOwners env st calls = true)
    (hrun : st.collected env calls = some st') : st'.Derived ∧ Sound env st' := by
  induction calls generalizing st with
  | nil =>
      obtain rfl : st = st' := by simpa [Store.collected] using hrun
      exact ⟨hderived, h⟩
  | cons call calls ih =>
      obtain ⟨hcall, hcalls⟩ := List.forall_mem_cons.mp hcalls
      obtain ⟨st₁, hstep, hrest⟩ := Option.bind_eq_some_iff.mp hrun
      simp only [keepsOwners, hstep, Option.all_some, Bool.and_eq_true] at hkeeps
      have hsound := h.ingested hcall.1 hstep
      rcases ingested_cases hstep with ⟨-, rfl⟩ | ⟨hopen, validation, row, hs⟩
      · exact ih h hderived hcalls hkeeps.2 hrest
      · have hstep := hderived.settles h hopen hkeeps.1 hs hcall.1 hcall.2
        exact ih hsound hstep (by rwa [FromSources, hs.sources]) hkeeps.2 hrest

end Store

/-- In every run from empty tables that takes no record away from its lead, lead rows are
derived data. -/
theorem leads_derived_from_records (env : Platform) {sources : Table Source}
    {calls : List IngestCall} (hcalls : Store.FromSources sources calls)
    (hkeeps : Store.keepsOwners env (.ofSources sources) calls = true) {st : Store}
    (hrun : (Store.ofSources sources).collected env calls = some st) : st.Derived :=
  have hempty : (Store.ofSources sources).Derived :=
    fun l hl => absurd hl (Table.not_mem_empty l)
  (hempty.collected (Store.Sound.ofSources env sources) hcalls hkeeps hrun).1

/-- Two companies, and then the first record again with the given e-mail address. -/
def refreshedRun (email : String) : List IngestCall :=
  [.plain .csv 1 [("external_id", "1"), ("email", "a@x.fi")],
    .plain .csv 2 [("external_id", "2"), ("email", "b@x.fi")],
    .plain .csv 3 [("external_id", "1"), ("email", email)]]

private theorem refreshedRun_sources (email : String) :
    Store.FromSources (Table.empty.put .csv) (refreshedRun email) := by
  intro call hcall
  simp only [refreshedRun, List.mem_cons, List.not_mem_nil, or_false] at hcall
  rcases hcall with rfl | rfl | rfl <;> exact ⟨Table.mem_put.mpr (.inl rfl), rfl⟩

theorem leads_derived_from_records_refreshed :
    ∃ st, (Store.ofSources (Table.empty.put .csv)).collected .ascii (refreshedRun "c@x.fi") =
      some st ∧ st.Derived := by
  obtain ⟨st, hrun⟩ := Option.isSome_iff_exists.mp (show ((Store.ofSources
    (Table.empty.put .csv)).collected .ascii (refreshedRun "c@x.fi")).isSome = true by
      decide +kernel)
  exact ⟨st, hrun, leads_derived_from_records .ascii (refreshedRun_sources _)
    (by decide +kernel) hrun⟩

/-- The record that comes back under the address of another company moves there and leaves its
first lead behind without records. -/
theorem leads_outlive_their_records :
    ¬∀ (env : Platform) (sources : Table Source) (calls : List IngestCall),
      Store.FromSources sources calls → ∀ st,
        (Store.ofSources sources).collected env calls = some st → st.Derived := by
  intro h
  have hstale : ((Store.ofSources (Table.empty.put .csv)).collected .ascii
      (refreshedRun "b@x.fi")).any (fun st => !decide st.Derived) = true := by
    decide +kernel
  obtain ⟨st, hrun, hne⟩ := (Option.any_eq_true _ _).mp hstale
  have hderived := h .ascii _ _ (refreshedRun_sources "b@x.fi") st hrun
  simp [hderived] at hne

end LeadPipe
