import LeadPipe.Framework.Clustering
import LeadPipe.Pipeline.Provenance
import LeadPipe.Pipeline.Separation

/-!
# What it takes to merge two records

A record joins a lead over an address, a domain or a number the lead shows in its columns, and
whatever a lead shows comes from a record it owns. So the records of a lead are connected by
records of that lead that share such a key, one after the other.
-/

namespace LeadPipe

open Framework

/-- A key that merges two records on its own. -/
inductive ExactKey where
  | email (value : Text)
  | domain (value : Text)
  | phone (value : Text)
  deriving DecidableEq

def LeadPayload.Shows (p : LeadPayload) : ExactKey → Prop
  | .email value => usableEmail p.email = some value
  | .domain value => p.websiteDomain = some value
  | .phone value => usablePhone p.phone = some value

def SourceRecord.Shows (r : SourceRecord) : ExactKey → Prop
  | .email value => r.fpEmail = some value
  | .domain value => r.fpDomain = some value
  | .phone value => r.fpPhone = some value

/-- The records share a usable e-mail address, a domain or a usable number. -/
def SourceRecord.Meets (a b : SourceRecord) : Prop := ∃ key, a.Shows key ∧ b.Shows key

theorem SourceRecord.Meets.symm {a b : SourceRecord} (h : a.Meets b) : b.Meets a := by
  obtain ⟨key, ha, hb⟩ := h
  exact ⟨key, hb, ha⟩

theorem keysMeet_iff {p q : LeadPayload} :
    keysMeet p q = true ↔ ∃ key, p.Shows key ∧ q.Shows key := by
  simp only [keysMeet, Bool.or_eq_true, equalKey_iff]
  constructor
  · rintro ((⟨value, hp, hq⟩ | ⟨value, hp, hq⟩) | ⟨value, hp, hq⟩)
    · exact ⟨.email value, hp, hq⟩
    · exact ⟨.domain value, hp, hq⟩
    · exact ⟨.phone value, hp, hq⟩
  · rintro ⟨key, hp, hq⟩
    cases key with
    | email value => exact .inl (.inl ⟨value, hp, hq⟩)
    | domain value => exact .inl (.inr ⟨value, hp, hq⟩)
    | phone value => exact .inr ⟨value, hp, hq⟩

theorem mergedColumns_shows {cs : List Candidate} {p : LeadPayload}
    (h : mergedColumns cs = some p) {key : ExactKey} (hkey : p.Shows key) :
    ∃ c ∈ cs, c.lead.toLeadPayload.Shows key := by
  have hvalue (f f' : LeadPayload → Option Text) (value : Text)
      (hwin : ((winner f (ranked rank cs)).bind fun c => f' c.lead.toLeadPayload) = some value) :
      ∃ c ∈ cs, f' c.lead.toLeadPayload = some value := by
    obtain ⟨c, hc, hsame⟩ := Option.bind_eq_some_iff.mp hwin
    exact ⟨c, mem_ranked.mp (mem_of_firstWith hc).1, hsame⟩
  rw [mergedColumns_eq] at h
  split at h
  · cases h
  obtain rfl := Option.some.inj h
  cases key with
  | email value =>
      obtain ⟨hwin, husable⟩ := Option.filter_eq_some_iff.mp hkey
      obtain ⟨c, hc, hsame⟩ := hvalue _ LeadPayload.email _ hwin
      exact ⟨c, hc, Option.filter_eq_some_iff.mpr ⟨hsame, husable⟩⟩
  | domain value => exact hvalue _ LeadPayload.websiteDomain _ hkey
  | phone value =>
      obtain ⟨hwin, husable⟩ := Option.filter_eq_some_iff.mp hkey
      obtain ⟨c, hc, hsame⟩ := hvalue _ LeadPayload.phone _ hwin
      exact ⟨c, hc, Option.filter_eq_some_iff.mpr ⟨hsame, husable⟩⟩

namespace Store

variable {env : Platform} {st st' : Store} {call : IngestCall} {validation : LeadValidation}
  {row : Lead}

theorem upserted_shows {leadId : Option Nat} {key : ExactKey} :
    ((st.upserted env call validation).ownedBy leadId).Shows key ↔
      (call.lead env).toLeadPayload.Shows key := by
  cases key <;> exact Iff.rfl

/-- The keys of a record are those of its payload, every key a lead shows is a key of one of its
records, and the records of a lead are connected by such keys. -/
structure Evident (st : Store) : Prop where
  prints : ∀ r ∈ st.records, ∀ key, r.Shows key ↔ r.normalized.Shows key
  shown : ∀ l ∈ st.leads, ∀ key, l.Shows key →
    ∃ r ∈ st.records, r.leadId = some l.id ∧ r.Shows key
  chained : Chained {r | r ∈ st.records} SourceRecord.leadId SourceRecord.Meets

/-- The lead a new record ends up with: one that shows a key of the record, or a new one. -/
private inductive Landed (env : Platform) (st : Store) (call : IngestCall) (row : Lead) : Prop
  | joined {existing : Lead} {key : ExactKey} (hexisting : existing ∈ st.leads)
      (hid : existing.id = row.id) (hstored : existing.Shows key)
      (hown : (call.lead env).toLeadPayload.Shows key)
      (hcolumns : mergedColumns (LeadRepository.candidatesFor st existing.id ++
        [st.incoming env call]) = some row.toLeadPayload)
  | founded (hid : row.id = st.leads.next)
      (hcolumns : mergedColumns [st.incoming env call] = some row.toLeadPayload)

private theorem landed (hs : Settles env st call validation row st')
    (hnew : st.recordOf env call = none) : Landed env st call row := by
  cases hs.lands with
  | @rebuilt lead row decided rebuilds =>
      obtain ⟨merged, graded, hmerge, -, rfl⟩ := (remerged_ok env _ _).mp rebuilds
      obtain ⟨hlead, hmatches⟩ := matched_of_new hnew decided
      rw [autoMatches_eq] at hmatches
      obtain ⟨key, hown, hstored⟩ := keysMeet_iff.mp hmatches
      rw [rebuilt_new hnew] at hmerge
      exact .joined hlead rfl hstored hown (mergedColumns_some hmerge)
  | @founded merged decided merges => exact .founded rfl (mergedColumns_some merges)

theorem Evident.settles (he : st.Evident) (h : Sound env st) (hopen : call.blocked env = false)
    (hs : Settles env st call validation row st') (hnew : st.recordOf env call = none) :
    st'.Evident := by
  set own := (st.upserted env call validation).ownedBy (some row.id) with hownDef
  obtain ⟨hattached, -⟩ := attached_of_keepsOwner h hopen (keepsOwner_new hnew) hs
  have hrecords : ∀ r, r ∈ st'.records ↔ r = own ∨ r ∈ st.records := by
    intro r
    rw [hs.records, hattached]
    refine or_congr_right ⟨fun hr => hr.1, fun hr => ⟨hr, ?_⟩⟩
    have hlt : r.id < st.records.next := Table.key_lt_next hr
    have hfresh := recordId_fresh hnew
    omega
  have hland := landed hs hnew
  have hold {r : SourceRecord} (hr : r ∈ st.records) : r ∈ st'.records := (hrecords r).mpr (.inr hr)
  have hown : own ∈ st'.records := (hrecords own).mpr (.inl rfl)
  have hincoming {c : Candidate} {key : ExactKey} (hc : c ∈ [st.incoming env call])
      (hkey : c.lead.toLeadPayload.Shows key) : own.Shows key := by
    obtain rfl := List.mem_singleton.mp hc
    exact upserted_shows.mpr hkey
  refine ⟨fun r hr key => ?_, fun l hl key hkey => ?_, ?_⟩
  · rcases (hrecords r).mp hr with rfl | hr
    · exact upserted_shows
    · exact he.prints r hr key
  · rcases (hs.leads l).mp hl with rfl | ⟨hl, -⟩
    · cases hland with
      | @joined existing _ _ hid _ _ hcolumns =>
          obtain ⟨c, hc, hshows⟩ := mergedColumns_shows hcolumns hkey
          rcases List.mem_append.mp hc with hc | hc
          · obtain ⟨r, hr, hlead, hcandidate⟩ := LeadRepository.mem_candidatesFor.mp hc
            obtain ⟨source, -, rfl⟩ := LeadRepository.toCandidate_some hcandidate
            exact ⟨r, hold hr, hlead.trans (congrArg some hid), (he.prints r hr key).mpr hshows⟩
          · exact ⟨own, hown, rfl, hincoming hc hshows⟩
      | founded hid hcolumns =>
          obtain ⟨c, hc, hshows⟩ := mergedColumns_shows hcolumns hkey
          exact ⟨own, hown, rfl, hincoming hc hshows⟩
    · obtain ⟨r, hr, hlead, hshows⟩ := he.shown l hl key hkey
      exact ⟨r, hold hr, hlead, hshows⟩
  · have hinsert : {r | r ∈ st'.records} = insert own {r | r ∈ st.records} := by
      ext r
      exact hrecords r
    rw [hinsert]
    apply he.chained.insert fun a b => SourceRecord.Meets.symm
    cases hland with
    | @joined existing key hexisting hid hstored hcall =>
        obtain ⟨r, hr, hlead, hshows⟩ := he.shown existing hexisting key hstored
        exact .inl ⟨r, hr, hlead.trans (congrArg some hid), key, hshows, upserted_shows.mpr hcall⟩
    | founded hid =>
        refine .inr fun r hr hlead => ?_
        obtain ⟨l, hl, hlead'⟩ := h.owned r hr
        have hlt : l.id < st.leads.next := Table.key_lt_next hl
        have hsame : l.id = row.id := Option.some.inj (hlead'.symm.trans hlead)
        omega

/-- What a run of distinct records keeps. -/
private structure Grounded (env : Platform) (st : Store) : Prop where
  sound : Sound env st
  paired : st.Paired
  owned : st.LinksOwned
  evident : st.Evident

private theorem Grounded.step (hg : Grounded env st) (hsource : call.source ∈ st.sources)
    (hrun : st.ingested env call = some st')
    (hnew : call.blocked env = false → st.recordOf env call = none) : Grounded env st' := by
  have hsound := hg.sound.ingested hsource hrun
  rcases ingested_cases hrun with ⟨-, rfl⟩ | ⟨hopen, validation, row, hs⟩
  · exact hg
  · obtain ⟨ws, hi, hview⟩ := ingested_writes hrun
    have hlinks := linksAfter_ingests hg.paired hi hopen
    rw [← hview] at hlinks
    refine ⟨hsound, hlinks.1, ?_, hg.evident.settles hg.sound hopen hs (hnew hopen)⟩
    exact (hg.owned.step hg.sound hopen hs hlinks).mpr (keepsOwner_new (hnew hopen))

private theorem Grounded.collected {calls : List IngestCall} (hg : Grounded env st)
    (hsources : ∀ call ∈ calls, call.source ∈ st.sources)
    (hdistinct : calls.Pairwise fun a b =>
      ¬(a.source.id = b.source.id ∧ a.recordKey env = b.recordKey env))
    (hfresh : Fresh env st calls) (hrun : st.collected env calls = some st') :
    Grounded env st' := by
  induction calls generalizing st with
  | nil =>
      obtain rfl : st = st' := by simpa [Store.collected] using hrun
      exact hg
  | cons call calls ih =>
      obtain ⟨hsource, hsources⟩ := List.forall_mem_cons.mp hsources
      obtain ⟨hapart, hdistinct⟩ := List.pairwise_cons.mp hdistinct
      obtain ⟨st₁, hstep, hrest⟩ := Option.bind_eq_some_iff.mp hrun
      have hnew := hfresh.recordOf List.mem_cons_self
      have hrestFresh : Fresh env st calls := fun r hr call' hcall' =>
        hfresh r hr call' (List.mem_cons_of_mem _ hcall')
      have hg₁ := hg.step hsource hstep fun _ => hnew
      rcases ingested_cases hstep with ⟨-, rfl⟩ | ⟨-, validation, row, hs⟩
      · exact ih hg hsources hdistinct hrestFresh hrest
      · exact ih hg₁ (by rwa [hs.sources]) hdistinct (hrestFresh.settles hapart hs) hrest

/-- Two records of one lead are connected by records of that lead that share an exact key one
after the other, and a link for review puts no record into a lead. -/
structure HardEvidence (st : Store) : Prop where
  chained : ∀ r ∈ st.records, ∀ r' ∈ st.records, r.leadId = r'.leadId →
    Relation.ReflTransGen (fun a b => a ∈ st.records ∧ b ∈ st.records ∧
      a.leadId = b.leadId ∧ a.Meets b) r r'
  reviewed : ∀ l ∈ st.leads, ∀ r ∈ st.records, st.Linked l.id r.id true → r.leadId ≠ some l.id

end Store

/-- After any run of distinct records from empty tables. -/
theorem no_merge_without_hard_evidence (env : Platform) {sources : Table Source}
    {calls : List IngestCall} (hsources : ∀ call ∈ calls, call.source ∈ sources)
    (hdistinct : calls.Pairwise fun a b =>
      ¬(a.source.id = b.source.id ∧ a.recordKey env = b.recordKey env)) {st : Store}
    (hrun : (Store.ofSources sources).collected env calls = some st) : st.HardEvidence := by
  have hempty : Store.Grounded env (.ofSources sources) := by
    refine ⟨Store.Sound.ofSources env sources, fun m hm => absurd hm (Table.not_mem_empty m),
      fun l hl => absurd hl (Table.not_mem_empty l), ?_⟩
    exact ⟨fun r hr => absurd hr (Table.not_mem_empty r),
      fun l hl => absurd hl (Table.not_mem_empty l), fun r hr => absurd hr (Table.not_mem_empty r)⟩
  have hg := hempty.collected hsources hdistinct
    (fun r hr => absurd hr (Table.not_mem_empty r)) hrun
  exact ⟨hg.evident.chained, (hg.owned.exact hg.sound hg.paired).flagged⟩

theorem no_merge_without_hard_evidence_joined :
    ∃ st, (Store.ofSources (Table.empty.put .csv)).collected .ascii joined = some st ∧
      st.HardEvidence := by
  obtain ⟨st, hrun⟩ := Option.isSome_iff_exists.mp (show ((Store.ofSources
    (Table.empty.put .csv)).collected .ascii joined).isSome = true by decide +kernel)
  have hsources : ∀ call ∈ joined, call.source ∈ (Table.empty.put Source.csv) := by
    intro call hcall
    simp only [joined, List.mem_cons, List.not_mem_nil, or_false] at hcall
    rcases hcall with rfl | rfl | rfl <;> exact Table.mem_put.mpr (.inl rfl)
  exact ⟨st, hrun, no_merge_without_hard_evidence .ascii hsources (by decide +kernel) hrun⟩

end LeadPipe
