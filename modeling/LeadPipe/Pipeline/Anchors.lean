import LeadPipe.Pipeline.Keys
import LeadPipe.Pipeline.Ownership

/-!
# Records that have a lead keep one

Whatever happens to the tables, a record that belongs to a lead belongs to one that exists, and a
record that is linked to any lead belongs to one. So a call for a record that has a lead writes
the row it wrote before, and it founds no lead.
-/

namespace LeadPipe

open Framework

namespace Store

variable {env : Platform} {st st' : Store} {call : IngestCall} {validation : LeadValidation}
  {row : Lead}

structure Anchored (st : Store) : Prop where
  unique : st.UniqueKeys
  linkedLead : st.LinksIssued
  linkedRecord : ∀ m ∈ st.merges, m.sourceRecordId < st.records.next
  owner : ∀ r ∈ st.records, ∀ leadId, r.leadId = some leadId → ∃ l ∈ st.leads, l.id = leadId
  linkedOwned : ∀ m ∈ st.merges, ∀ r ∈ st.records, r.id = m.sourceRecordId → r.leadId ≠ none

/-- The source's record under the key belongs to a lead that exists. -/
def Housed (st : Store) (sourceId : Nat) (recordKey : Text) : Prop :=
  ∃ r ∈ st.records, r.sourceId = sourceId ∧ r.recordKey = recordKey ∧
    ∃ l ∈ st.leads, r.leadId = some l.id

theorem Anchored.empty : Anchored .empty where
  unique r hr := absurd hr (Table.not_mem_empty r)
  linkedLead m hm := absurd hm (Table.not_mem_empty m)
  linkedRecord m hm := absurd hm (Table.not_mem_empty m)
  owner r hr := absurd hr (Table.not_mem_empty r)
  linkedOwned m hm := absurd hm (Table.not_mem_empty m)

theorem Anchored.congr (h : st.Anchored) (hrecords : st'.records = st.records)
    (hleads : st'.leads = st.leads) (hmerges : st'.merges = st.merges) : st'.Anchored where
  unique := by
    unfold UniqueKeys
    rw [hrecords]
    exact h.unique
  linkedLead := by
    intro m hm
    rw [hleads]
    exact h.linkedLead m (hmerges ▸ hm)
  linkedRecord := by
    rw [hmerges, hrecords]
    exact h.linkedRecord
  owner := by
    rw [hrecords, hleads]
    exact h.owner
  linkedOwned := by
    rw [hmerges, hrecords]
    exact h.linkedOwned

theorem Housed.congr {sourceId : Nat} {recordKey : Text} (h : st.Housed sourceId recordKey)
    (hrecords : st'.records = st.records) (hleads : st'.leads = st.leads) :
    st'.Housed sourceId recordKey := by
  unfold Housed
  rw [hrecords, hleads]
  exact h

theorem Anchored.attached (h : st.Anchored) (hs : Settles env st call validation row st') :
    ∃ l ∈ st'.leads, st.attached env call = some l.id := by
  have hrow : row ∈ st'.leads := (hs.leads row).mpr (.inl rfl)
  have htarget := hs.lands.lead.1
  cases hd : st.decision env call with
  | join existing result =>
      cases hlink : LeadRepository.linkBetween st existing.id (st.recordId env call) with
      | none =>
          exact ⟨row, hrow, by simp [Store.attached, hd, hlink, htarget, target]⟩
      | some m =>
          -- a linked record is stored and has an owner, and it stays with it
          obtain ⟨hm, -, hrecord⟩ := LeadRepository.linkBetween_some hlink
          cases hrec : st.recordOf env call with
          | none =>
              have hlt := h.linkedRecord m hm
              have hfresh := recordId_fresh hrec
              omega
          | some r =>
              have hr := (recordOf_some hrec).1
              have howned := h.linkedOwned m hm r hr (by rw [hrecord, recordId_eq hrec])
              obtain ⟨leadId, hlead⟩ := Option.ne_none_iff_exists'.mp howned
              obtain ⟨l, hl, hid⟩ := h.owner r hr leadId hlead
              obtain ⟨l', hl', hid'⟩ := hs.lead_survives hl
              exact ⟨l', hl', by simp [Store.attached, hd, hlink, hrec, hlead, hid, hid']⟩
  | refresh own =>
      obtain ⟨-, hbind⟩ := ownOf_some (decision_refresh hd)
      exact ⟨row, hrow, by simp [Store.attached, hd, hbind, htarget, target]⟩
  | found =>
      have hnone := h.linkedLead.unlinked (st.recordId env call)
      exact ⟨row, hrow, by simp [Store.attached, hd, hnone, htarget, target]⟩

theorem Anchored.settles (h : st.Anchored) (hs : Settles env st call validation row st') :
    st'.Anchored where
  unique := h.unique.written hs.records (upserted_sourceId env st call validation)
    (upserted_recordKey env st call validation)
  linkedLead := h.linkedLead.settles hs
  linkedRecord := linkedRecord_settles h.linkedRecord hs
  owner := by
    intro r hr leadId hlead
    rcases (hs.records r).mp hr with rfl | ⟨hr, -⟩
    · obtain ⟨l, hl, hattached⟩ := h.attached hs
      exact ⟨l, hl, Option.some.inj (hattached.symm.trans hlead)⟩
    · obtain ⟨l, hl, hid⟩ := h.owner r hr leadId hlead
      obtain ⟨l', hl', hid'⟩ := hs.lead_survives hl
      exact ⟨l', hl', hid'.trans hid⟩
  linkedOwned := by
    intro m hm r hr hid
    rcases (hs.records r).mp hr with rfl | ⟨hr, hother⟩
    · obtain ⟨l, -, hattached⟩ := h.attached hs
      change st.attached env call ≠ none
      rw [hattached]
      exact Option.some_ne_none _
    · rcases hs.merges m hm with ⟨m₀, hm₀, -, hrecord⟩ | ⟨hrecord, -⟩
      · exact h.linkedOwned m₀ hm₀ r hr (hid.trans hrecord.symm)
      · exact absurd (hid.trans hrecord) hother

theorem Anchored.aborts (h : st.Anchored) {ws : List Write} (ha : Aborts env st call ws) :
    (Session.replay ws st).Anchored := by
  obtain ⟨hleads, hmerges⟩ := Aborts.keeps ha
  cases ha with
  | ungraded => exact h
  | @unmerged validation =>
      have hrecords : ∀ r, r ∈ (Session.replay [st.upsertWrite env call validation] st).records ↔
          r = st.upserted env call validation ∨
            (r ∈ st.records ∧ r.id ≠ st.recordId env call) :=
        fun r => mem_upsertWrite_records
      have hnext : ((st.upsertWrite env call validation).apply st).records.next =
          max st.records.next (st.recordId env call + 1) :=
        next_upsertWrite_records st call validation
      refine ⟨h.unique.written hrecords (upserted_sourceId env st call validation)
        (upserted_recordKey env st call validation), fun m hm => ?_, fun m hm => ?_,
        fun r hr leadId hlead => ?_, fun m hm r hr hid => ?_⟩
      · rw [hleads]
        exact h.linkedLead m (hmerges ▸ hm)
      · have hlt := h.linkedRecord m (hmerges ▸ hm)
        change m.sourceRecordId < ((st.upsertWrite env call validation).apply st).records.next
        omega
      · rw [hleads]
        rcases (hrecords r).mp hr with rfl | ⟨hr, -⟩
        · rw [upserted_leadId] at hlead
          obtain ⟨r₀, hrec, hlead⟩ := Option.bind_eq_some_iff.mp hlead
          exact h.owner r₀ (recordOf_some hrec).1 leadId hlead
        · exact h.owner r hr leadId hlead
      · have hm₀ : m ∈ st.merges := hmerges ▸ hm
        rcases (hrecords r).mp hr with rfl | ⟨hr, -⟩
        · rw [upserted_id] at hid
          rw [upserted_leadId]
          cases hrec : st.recordOf env call with
          | none =>
              have hlt := h.linkedRecord m hm₀
              have hfresh := recordId_fresh hrec
              omega
          | some r₀ =>
              exact h.linkedOwned m hm₀ r₀ (recordOf_some hrec).1 (by rw [← hid, recordId_eq hrec])
        · exact h.linkedOwned m hm₀ r hr hid

/-- The three ways a call can go. -/
inductive Outcome (env : Platform) (st : Store) (call : IngestCall) (st' : Store) : Prop
  | suppressed (hblocked : call.blocked env = true) (hsame : st' = st)
  | settled {validation : LeadValidation} {row : Lead} (hopen : call.blocked env = false)
      (hs : Settles env st call validation row st')
  | raised {ws : List Write} (ha : Aborts env st call ws) (hview : st' = Session.replay ws st)

theorem ingest_outcome (env : Platform) (call : IngestCall) {s : Session Store Write RunStats}
    (h : s.Healthy) : (ingest env call s).2.Healthy ∧
      Outcome env s.view call (ingest env call s).2.view := by
  rcases hrun : ingest env call s with ⟨e | a, s'⟩
  · obtain ⟨ws, ha, hview, -, hhealthy⟩ := ingest_raises env h hrun
    exact ⟨hhealthy, .raised ha hview⟩
  · obtain ⟨ws, hi, hview, -, hhealthy⟩ := ingest_completes env h hrun
    refine ⟨hhealthy, ?_⟩
    change Outcome env s.view call s'.view
    rw [hview]
    cases hb : call.blocked env with
    | false =>
        obtain ⟨validation, row, hs⟩ := hi.settles hb
        exact .settled hb hs
    | true =>
        cases hi with
        | suppressed => exact .suppressed hb rfl
        | placed unblocked => simp [hb] at unblocked

theorem Anchored.outcome (h : st.Anchored) (ho : Outcome env st call st') : st'.Anchored := by
  cases ho with
  | suppressed _ hsame => exact hsame ▸ h
  | settled _ hs => exact h.settles hs
  | raised ha hview => exact hview ▸ h.aborts ha

theorem Outcome.sources (ho : Outcome env st call st') : st'.sources = st.sources := by
  cases ho with
  | suppressed _ hsame => rw [hsame]
  | settled _ hs => exact hs.sources
  | raised ha hview =>
      rw [hview]
      cases ha with
      | ungraded => rfl
      | unmerged =>
          change ((st.upsertWrite env call _).apply st).sources = st.sources
          unfold upsertWrite
          cases st.recordOf env call <;> rfl

theorem Housed.outcome {sourceId : Nat} {recordKey : Text} (hh : st.Housed sourceId recordKey)
    (h : st.Anchored) (ho : Outcome env st call st') : st'.Housed sourceId recordKey := by
  obtain ⟨r, hr, hsource, hkey, l, hl, hlead⟩ := hh
  cases ho with
  | suppressed _ hsame => exact hsame ▸ ⟨r, hr, hsource, hkey, l, hl, hlead⟩
  | @settled validation row hopen hs =>
      by_cases hid : r.id = st.recordId env call
      · obtain ⟨hsource', hkey'⟩ := key_of_recordId hr hid
        obtain ⟨l', hl', hattached⟩ := h.attached hs
        refine ⟨_, (hs.records _).mpr (.inl rfl), ?_, ?_, l', hl', hattached⟩
        · exact (upserted_sourceId env st call validation).trans (hsource'.symm.trans hsource)
        · exact (upserted_recordKey env st call validation).trans (hkey'.symm.trans hkey)
      · obtain ⟨l', hl', hid'⟩ := hs.lead_survives hl
        exact ⟨r, (hs.records r).mpr (.inr ⟨hr, hid⟩), hsource, hkey, l', hl', by rw [hlead, hid']⟩
  | @raised ws ha hview =>
      obtain ⟨hleads, -⟩ := Aborts.keeps ha
      rw [← hview] at hleads
      cases ha with
      | ungraded => exact hview ▸ ⟨r, hr, hsource, hkey, l, hl, hlead⟩
      | @unmerged validation =>
          by_cases hid : r.id = st.recordId env call
          · obtain ⟨hsource', hkey'⟩ := key_of_recordId hr hid
            have hwritten : st.upserted env call validation ∈ st'.records := by
              rw [hview]
              exact mem_upsertWrite_records.mpr (.inl rfl)
            refine ⟨_, hwritten, ?_, ?_, l, hleads ▸ hl, ?_⟩
            · exact (upserted_sourceId env st call validation).trans (hsource'.symm.trans hsource)
            · exact (upserted_recordKey env st call validation).trans (hkey'.symm.trans hkey)
            · obtain ⟨r₀, hrec⟩ : ∃ r₀, st.recordOf env call = some r₀ := by
                cases hrec : st.recordOf env call with
                | none =>
                    have hlt : r.id < st.records.next := Table.key_lt_next hr
                    have hfresh := recordId_fresh hrec
                    omega
                | some r₀ => exact ⟨r₀, rfl⟩
              have hsame : r = r₀ :=
                Table.eq_of_key hr (recordOf_some hrec).1 (hid.trans (recordId_eq hrec))
              rw [upserted_leadId, hrec, Option.bind_some, ← hsame, hlead]
          · have hkept : r ∈ st'.records := by
              rw [hview]
              exact mem_upsertWrite_records.mpr (.inr ⟨hr, hid⟩)
            exact ⟨r, hkept, hsource, hkey, l, hleads ▸ hl, hlead⟩

theorem Anchored.housed (h : st.Anchored) (hs : Settles env st call validation row st') :
    st'.Housed call.source.id (call.recordKey env) := by
  obtain ⟨l, hl, hattached⟩ := h.attached hs
  exact ⟨_, (hs.records _).mpr (.inl rfl), upserted_sourceId env st call validation,
    upserted_recordKey env st call validation, l, hl, hattached⟩

theorem Housed.ownOf (hh : st.Housed call.source.id (call.recordKey env)) (h : st.Anchored) :
    ∃ own, st.ownOf env call = some own := by
  obtain ⟨r, hr, hsource, hkey, l, hl, hlead⟩ := hh
  have hid := h.unique.eq_recordId hr hsource hkey
  cases hrec : st.recordOf env call with
  | none => exact absurd ⟨hsource, hkey⟩ (SourceRecordRepository.byKey_none hrec r hr)
  | some r₀ =>
      have hsame : r = r₀ :=
        Table.eq_of_key hr (recordOf_some hrec).1 (hid.trans (recordId_eq hrec))
      have hfind : st.leads.find? l.id = some l := Table.find?_eq_some.mpr ⟨hl, rfl⟩
      exact ⟨l, by simp [Store.ownOf, hrec, ← hsame, hlead, hfind]⟩

/-- The two stores have rows under the same identifiers, for records and for leads. -/
structure SameRows (st st' : Store) : Prop where
  records : ∀ id, (∃ r ∈ st'.records, r.id = id) ↔ ∃ r ∈ st.records, r.id = id
  leads : ∀ id, (∃ l ∈ st'.leads, l.id = id) ↔ ∃ l ∈ st.leads, l.id = id

theorem SameRows.refl (st : Store) : SameRows st st := ⟨fun _ => Iff.rfl, fun _ => Iff.rfl⟩

theorem SameRows.trans {st₁ st₂ st₃ : Store} (h : SameRows st₁ st₂) (h' : SameRows st₂ st₃) :
    SameRows st₁ st₃ :=
  ⟨fun id => (h'.records id).trans (h.records id), fun id => (h'.leads id).trans (h.leads id)⟩

private theorem same_rows {ρ : Type} [Keyed ρ] {t t' : Table ρ} (written : ρ)
    (hold : ∃ r ∈ t, key r = key written)
    (hrows : ∀ r, r ∈ t' ↔ r = written ∨ (r ∈ t ∧ key r ≠ key written)) (k : Nat) :
    (∃ r ∈ t', key r = k) ↔ ∃ r ∈ t, key r = k := by
  constructor
  · rintro ⟨r, hr, hk⟩
    rcases (hrows r).mp hr with rfl | ⟨hr, -⟩
    · obtain ⟨r₀, hr₀, hsame⟩ := hold
      exact ⟨r₀, hr₀, hsame.trans hk⟩
    · exact ⟨r, hr, hk⟩
  · rintro ⟨r, hr, hk⟩
    by_cases hsame : key r = key written
    · exact ⟨written, (hrows written).mpr (.inl rfl), hsame.symm.trans hk⟩
    · exact ⟨r, (hrows r).mpr (.inr ⟨hr, hsame⟩), hk⟩

theorem Outcome.sameRows (ho : Outcome env st call st')
    (hh : st.Housed call.source.id (call.recordKey env)) (h : st.Anchored) :
    SameRows st st' := by
  obtain ⟨own, hown⟩ := hh.ownOf h
  obtain ⟨r₀, hrec, -⟩ := Option.bind_eq_some_iff.mp (ownOf_some hown).2
  have hstored : ∃ r ∈ st.records, r.id = st.recordId env call :=
    ⟨r₀, (recordOf_some hrec).1, (recordId_eq hrec).symm⟩
  cases ho with
  | suppressed _ hsame =>
      rw [hsame]
      exact .refl st
  | @settled validation row hopen hs =>
      have hwritten : ((st.upserted env call validation).ownedBy (st.attached env call)).id =
          st.recordId env call := upserted_id env st call validation
      refine ⟨same_rows ((st.upserted env call validation).ownedBy (st.attached env call))
        (by simpa [hwritten] using hstored) (by simpa [hwritten] using hs.records),
        same_rows row ?_ (by simpa using hs.leads)⟩
      rcases hs.lands.lead.2 with hlead | ⟨hfound, -⟩
      · exact hlead
      · have hnone := decision_found hfound
        rw [hown] at hnone
        cases hnone
  | @raised ws ha hview =>
      obtain ⟨hleads, -⟩ := Aborts.keeps ha
      rw [← hview] at hleads
      refine ⟨?_, fun id => by rw [hleads]⟩
      cases ha with
      | ungraded =>
          rw [hview]
          exact fun _ => Iff.rfl
      | @unmerged validation =>
          have hwritten := upserted_id env st call validation
          have hrecords : ∀ r, r ∈ st'.records ↔ r = st.upserted env call validation ∨
              (r ∈ st.records ∧ r.id ≠ st.recordId env call) := by
            intro r
            rw [hview]
            exact mem_upsertWrite_records
          exact same_rows (st.upserted env call validation) (by simpa [hwritten] using hstored)
            (by simpa [hwritten] using hrecords)

theorem Housed.newLeads {s s' : Session Store Write RunStats} (h : s.Healthy)
    {r : Except (Exn PyError) Unit} (hrun : ingest env call s = (r, s'))
    (hh : s.view.Housed call.source.id (call.recordKey env)) (ha : s.view.Anchored) :
    s'.notes.newLeads = s.notes.newLeads := by
  have hstarted : (call.started env).newLeads = 0 := by
    unfold IngestCall.started
    cases validateLead env (call.lead env) with
    | error e => rfl
    | ok validation =>
        dsimp only
        cases validation.status <;> rfl
  rcases r with e | a
  · rw [ingest_raises_counted env h hrun]
    change s.notes.newLeads + (call.started env).newLeads = _
    omega
  · obtain ⟨own, hown⟩ := hh.ownOf ha
    rw [ingest_completes_counted env h hrun]
    change s.notes.newLeads + (s.view.counted env call).newLeads = _
    have hcounted : (s.view.counted env call).newLeads = 0 := by
      unfold counted
      split
      · rfl
      · change (call.started env).newLeads + ((s.view.decision env call).counted.newLeads +
          (s.view.flagged env call).newLeads) = 0
        have hflagged : (s.view.flagged env call).newLeads = 0 := by
          unfold flagged
          split
          · split <;> rfl
          · rfl
        have hdecided : (s.view.decision env call).counted.newLeads = 0 := by
          cases hd : s.view.decision env call with
          | join existing result => rfl
          | refresh own => rfl
          | found =>
              have hnone := decision_found hd
              rw [hown] at hnone
              cases hnone
        omega
    omega

end Store

namespace Store

variable {st : Store}

theorem Anchored.deleteLead (h : st.Anchored) (leadId : Nat) :
    (st.deleteLead leadId).Anchored where
  unique r hr r' hr' := h.unique r (Table.mem_erase.mp hr).1 r' (Table.mem_erase.mp hr').1
  linkedLead := h.linkedLead.deleteLead leadId
  linkedRecord m hm := h.linkedRecord m (Table.mem_erase.mp hm).1
  owner := by
    intro r hr owner hlead
    obtain ⟨hr, hkept⟩ := Table.mem_erase.mp hr
    obtain ⟨l, hl, hid⟩ := h.owner r hr owner hlead
    have hne : l.id ≠ leadId := by simpa [hlead, hid] using hkept
    exact ⟨l, Table.mem_erase.mpr ⟨hl, by simpa using hne⟩, hid⟩
  linkedOwned m hm r hr := h.linkedOwned m (Table.mem_erase.mp hm).1 r (Table.mem_erase.mp hr).1

end Store

namespace World

variable {env : Platform}

private theorem keeps_anchored (env : Platform) : Keeps env Store.Anchored := by
  refine .of_rows .empty (fun _ _ hrecords hleads hmerges h => h.congr hrecords hleads hmerges)
    (fun st call h => ?_) fun st leadId h => h.deleteLead leadId
  have hopen : st.session.Healthy := ⟨rfl, rfl⟩
  obtain ⟨-, houtcome⟩ := Store.ingest_outcome env call hopen
  exact h.outcome houtcome

private theorem keeps_named (env : Platform) : Keeps env SourceRepository.Named where
  empty r hr := absurd hr (Table.not_mem_empty r)
  configure st config h := by
    have hopen : st.session.Healthy := ⟨rfl, rfl⟩
    obtain ⟨source, ws, hrun, -, hups⟩ := SourceRepository.upsert_upserts hopen h config.name
      config.type config.priority config.enabled config.options
    rw [hrun]
    exact hups.named
  suppressions _ _ h := h
  ingest st call h := by
    have hopen : st.session.Healthy := ⟨rfl, rfl⟩
    obtain ⟨-, houtcome⟩ := Store.ingest_outcome env call hopen
    unfold SourceRepository.Named
    rw [houtcome.sources]
    exact h
  delete _ _ h := h

theorem Reachable.anchored {w : World} (hw : w.Reachable env) : w.store.Anchored :=
  (keeps_anchored env).reachable hw

theorem Reachable.named {w : World} (hw : w.Reachable env) : SourceRepository.Named w.store :=
  (keeps_named env).reachable hw

end World

end LeadPipe
