import LeadPipe.Framework.Books
import LeadPipe.System.Sources

/-!
# What a collection touches

A collection leaves the records of all other sources as they are, and a lead that it changes or
adds has a link to a record of its own source: the provenance of a lead names every source that
has just had a part in it.
-/

namespace LeadPipe

open Framework

namespace Store

def HasLink (st : Store) (leadId recordId : Nat) : Prop :=
  ∃ m ∈ st.merges, m.leadId = leadId ∧ m.sourceRecordId = recordId

/-- Every record is linked to the lead it belongs to. -/
def OwnersLinked (st : Store) : Prop :=
  ∀ r ∈ st.records, ∀ leadId, r.leadId = some leadId → st.HasLink leadId r.id

def Credited (st : Store) (sourceId leadId : Nat) : Prop :=
  ∃ r ∈ st.records, r.sourceId = sourceId ∧ st.HasLink leadId r.id

variable {st st' : Store} {leadId recordId sourceId : Nat}

theorem HasLink.put (h : st.HasLink leadId recordId) {row : LeadMerge}
    (hrow : st.merges.next ≤ row.id) :
    HasLink { st with merges := st.merges.put row } leadId recordId := by
  obtain ⟨m, hm, hpair⟩ := h
  have hlt : m.id < st.merges.next := Table.key_lt_next hm
  exact ⟨m, Table.mem_put.mpr (.inr ⟨hm, (hlt.trans_le hrow).ne⟩), hpair⟩

theorem HasLink.replace (h : st.HasLink leadId recordId) {old row : LeadMerge}
    (hold : old ∈ st.merges) (hid : old.id = row.id)
    (hpair : row.leadId = old.leadId ∧ row.sourceRecordId = old.sourceRecordId) :
    HasLink { st with merges := st.merges.replace row } leadId recordId := by
  obtain ⟨m, hm, hlead, hrecord⟩ := h
  by_cases hm' : m.id = row.id
  · have heq : m = old := Table.eq_of_key hm hold (hm'.trans hid.symm)
    rw [heq] at hlead hrecord
    exact ⟨row, Table.mem_replace.mpr (.inl ⟨rfl, old, hold, hid⟩), hpair.1.trans hlead,
      hpair.2.trans hrecord⟩
  · exact ⟨m, Table.mem_replace.mpr (.inr ⟨hm, hm'⟩), hlead, hrecord⟩

theorem OwnersLinked.congr (h : st.OwnersLinked) (hrecords : st'.records = st.records)
    (hmerges : st'.merges = st.merges) : st'.OwnersLinked := by
  unfold OwnersLinked HasLink
  rw [hrecords, hmerges]
  exact h

theorem OwnersLinked.deleteLead (h : st.OwnersLinked) (leadId : Nat) :
    (st.deleteLead leadId).OwnersLinked := by
  intro r hr owner howner
  obtain ⟨hr, hkept⟩ := Table.mem_erase.mp hr
  obtain ⟨m, hm, hlead, hrecord⟩ := h r hr owner howner
  have hne : owner ≠ leadId := by
    rintro rfl
    simp [howner] at hkept
  have hfind : st.records.find? r.id = some r := Table.find?_eq_some.mpr ⟨hr, rfl⟩
  refine ⟨m, Table.mem_erase.mpr ⟨hm, ?_⟩, hlead, hrecord⟩
  simp [hlead, hrecord, hfind, howner, hne]

end Store

/-- Since the state of before, only records of the source were written, and the leads that were
written are linked to one of them, up to the one that is just being written. -/
structure Scoped (before : Store) (source : Source) (pending : Option Nat) (st : Store) : Prop where
  others : ∀ r : SourceRecord, r.sourceId ≠ source.id → (r ∈ st.records ↔ r ∈ before.records)
  leads : ∀ l ∈ st.leads, l ∈ before.leads ∨ st.Credited source.id l.id ∨ pending = some l.id
  owners : st.OwnersLinked
  stored : source ∈ st.sources

namespace Scoped

variable {before st : Store} {source : Source} {pending : Option Nat}

theorem written (h : Scoped before source pending st) {records : Table SourceRecord}
    {merges : Table LeadMerge}
    (hothers : ∀ r : SourceRecord, r.sourceId ≠ source.id → (r ∈ records ↔ r ∈ st.records))
    (hkept : ∀ r ∈ st.records, r.sourceId = source.id →
      ∃ r' ∈ records, r'.id = r.id ∧ r'.sourceId = source.id)
    (hlinks : ∀ leadId recordId, st.HasLink leadId recordId →
      Store.HasLink { st with merges } leadId recordId)
    (howners : ∀ r ∈ records, ∀ leadId, r.leadId = some leadId →
      Store.HasLink { st with merges } leadId r.id) :
    Scoped before source pending { st with records, merges } := by
  refine ⟨fun r hr => (hothers r hr).trans (h.others r hr), fun l hl => ?_, howners, h.stored⟩
  rcases h.leads l hl with hold | ⟨r, hr, hsource, hlink⟩ | hopen
  · exact .inl hold
  · obtain ⟨r', hr', hid, hsource'⟩ := hkept r hr hsource
    refine .inr (.inl ⟨r', hr', hsource', ?_⟩)
    rw [hid]
    exact hlinks l.id r.id hlink
  · exact .inr (.inr hopen)

theorem insertRecord (h : Scoped before source pending st) {row : SourceRecord}
    (hid : row.id = st.records.next) (hsource : row.sourceId = source.id)
    (hlead : row.leadId = none) :
    Scoped before source pending { st with records := st.records.put row } := by
  have hne (r : SourceRecord) (hr : r ∈ st.records) : r.id ≠ row.id := by
    have hlt : r.id < st.records.next := Table.key_lt_next hr
    omega
  refine h.written (fun r hr => ?_) (fun r hr hrs => ?_) (fun _ _ hlink => hlink) ?_
  · rw [Table.mem_put]
    constructor
    · rintro (rfl | ⟨hr, -⟩)
      · exact absurd hsource hr
      · exact hr
    · exact fun hr => .inr ⟨hr, hne r hr⟩
  · exact ⟨r, Table.mem_put.mpr (.inr ⟨hr, hne r hr⟩), rfl, hrs⟩
  · intro r hr leadId howned
    rcases Table.mem_put.mp hr with rfl | ⟨hr, -⟩
    · rw [hlead] at howned
      cases howned
    · exact h.owners r hr leadId howned

theorem updateRecord (h : Scoped before source pending st) {records : Table SourceRecord}
    {old row : SourceRecord} (hold : old ∈ st.records) (hsource : old.sourceId = source.id)
    (hrecords : ∀ r, r ∈ records ↔ r = row ∨ (r ∈ st.records ∧ r.id ≠ old.id))
    (hrow : row.id = old.id ∧ row.sourceId = source.id)
    {merges : Table LeadMerge}
    (hlinks : ∀ leadId recordId, st.HasLink leadId recordId →
      Store.HasLink { st with merges } leadId recordId)
    (howner : ∀ leadId, row.leadId = some leadId →
      Store.HasLink { st with merges } leadId row.id) :
    Scoped before source pending { st with records, merges } := by
  refine h.written (fun r hr => ?_) (fun r hr hrs => ?_) hlinks fun r hr leadId howned => ?_
  · rw [hrecords]
    constructor
    · rintro (rfl | ⟨hr, -⟩)
      · exact absurd hrow.2 hr
      · exact hr
    · refine fun hmem => .inr ⟨hmem, fun hid => hr ?_⟩
      rw [Table.eq_of_key hmem hold hid, hsource]
  · by_cases hid : r.id = old.id
    · exact ⟨row, (hrecords row).mpr (.inl rfl), hrow.1.trans hid.symm, hrow.2⟩
    · exact ⟨r, (hrecords r).mpr (.inr ⟨hr, hid⟩), rfl, hrs⟩
  · rcases (hrecords r).mp hr with rfl | ⟨hr, -⟩
    · exact howner leadId howned
    · exact hlinks leadId r.id (h.owners r hr leadId howned)

theorem close {leadId : Nat} (h : Scoped before source (some leadId) st)
    (hcredited : st.Credited source.id leadId) : Scoped before source none st := by
  refine ⟨h.others, fun l hl => ?_, h.owners, h.stored⟩
  rcases h.leads l hl with hold | hlinked | hopen
  · exact .inl hold
  · exact .inr (.inl hlinked)
  · cases hopen
    exact .inr (.inl hcredited)

theorem writeLead (h : Scoped before source none st) {leads : Table Lead} (row : Lead)
    (hleads : ∀ l ∈ leads, l = row ∨ l ∈ st.leads) :
    Scoped before source (some row.id) { st with leads } := by
  refine ⟨h.others, fun l hl => ?_, h.owners, h.stored⟩
  rcases hleads l hl with rfl | hl
  · exact .inr (.inr rfl)
  · rcases h.leads l hl with hold | hlinked | hopen
    · exact .inl hold
    · exact .inr (.inl hlinked)
    · cases hopen

end Scoped

section Record

variable (env : Platform) {before : Store} {source : Source} {E : Store → RunStats → Prop}

def Kept (before : Store) (source : Source) (record : SourceRecord) (pending : Option Nat)
    (st : Store) : Prop :=
  Scoped before source pending st ∧ record ∈ st.records ∧ record.sourceId = source.id

theorem upsertRecord_scoped (lead : NormalizedLead) (validation : LeadValidation)
    (jobId : Option Nat) (externalId : Option Text) :
    Txn.Upholds (fun st _ => Scoped before source none st)
      (SourceRecordRepository.upsert env source.id lead validation jobId externalId)
      (fun p st _ => Kept before source p.1 none st) E := by
  refine .bind (.query _) fun found => ?_
  cases found with
  | none =>
      refine Txn.Upholds.bind (Txn.Upholds.bind (.peek _) fun id => ?_)
        fun row => Txn.Upholds.pure fun _ _ h => h
      refine Txn.Upholds.bind (Q := fun _ st _ => Kept before source
        (SourceRecordRepository.fill env (SourceRecordRepository.blank id source.id
          (SourceRecordRepository.recordKey env lead externalId) lead) lead validation jobId
            externalId) none st) (.execute fun st _ h => ?_) fun _ => .pure fun _ _ h => h
      obtain ⟨⟨h, -⟩, rfl⟩ := h
      exact ⟨h.insertRecord rfl rfl rfl, Table.mem_put.mpr (.inl rfl), rfl⟩
  | some record =>
      refine Txn.Upholds.bind (Q := fun _ st _ => Kept before source
        (SourceRecordRepository.fill env record lead validation jobId externalId) none st)
        (.execute fun st _ h => ?_) fun _ => .pure fun _ _ h => h
      obtain ⟨h, hfound⟩ := h
      obtain ⟨hmem, hsource, -⟩ := SourceRecordRepository.byKey_some hfound.symm
      have hrow (r : SourceRecord) : r ∈ st.records.replace (SourceRecordRepository.fill env record
          lead validation jobId externalId) ↔ r = SourceRecordRepository.fill env record lead
            validation jobId externalId ∨ (r ∈ st.records ∧ r.id ≠ record.id) :=
        Table.mem_replace_of_mem hmem rfl
      exact ⟨h.updateRecord hmem hsource hrow ⟨rfl, hsource⟩ (fun _ _ hlink => hlink)
        fun leadId howned => h.owners record hmem leadId howned, (hrow _).mpr (.inl rfl), hsource⟩

theorem link_scoped {record : SourceRecord} (leadId : Nat) (rule : Text) (confidence : ℚ) :
    Txn.Upholds (fun st _ => Kept before source record (some leadId) st)
      (LeadRepository.link leadId record.id rule confidence false true)
      (fun _ st _ => Scoped before source none st) E := by
  unfold LeadRepository.link
  refine .bind (.query _) fun found => ?_
  cases found with
  | some existing =>
      refine .execute fun st _ h => ?_
      obtain ⟨⟨h, hmem, hsource⟩, hfound⟩ := h
      obtain ⟨hold, hlead, hrecord⟩ := LeadRepository.linkBetween_some hfound.symm
      have hlinks (l r : Nat) (hlink : st.HasLink l r) : Store.HasLink { st with
          merges := st.merges.replace { existing with rule, confidence, needsReview := false } }
            l r :=
        hlink.replace hold rfl ⟨rfl, rfl⟩
      refine Scoped.close (h.written (fun _ _ => Iff.rfl) (fun r hr hrs => ⟨r, hr, rfl, hrs⟩) hlinks
        fun r hr l howned => hlinks l r.id (h.owners r hr l howned)) ⟨record, hmem, hsource, ?_⟩
      exact hlinks leadId record.id ⟨existing, hold, hlead, hrecord⟩
  | none =>
      dsimp only
      rw [if_pos rfl]
      refine Txn.Upholds.bind (Q := fun _ st _ => ∃ st₀,
        Kept before source record (some leadId) st₀ ∧
          st = (Write.claimRecord record.id leadId).apply st₀)
        (.execute fun st _ h => ⟨st, h.1, rfl⟩) fun _ => ?_
      refine Txn.Upholds.bind (Txn.Upholds.bind (.peek _) fun id => Txn.Upholds.bind
        (Q := fun _ st _ => Scoped before source none st) (.execute fun st _ h => ?_)
          fun _ => .pure fun _ _ h => h) fun _ => .pure fun _ _ h => h
      obtain ⟨⟨st, ⟨h, hmem, hsource⟩, rfl⟩, rfl⟩ := h
      have hlinks (l r : Nat) (hlink : st.HasLink l r) : Store.HasLink { st with
          merges := st.merges.put ⟨st.merges.next, leadId, record.id, rule, confidence, false⟩ }
            l r :=
        hlink.put le_rfl
      have hlinked : Store.HasLink { st with
          merges := st.merges.put ⟨st.merges.next, leadId, record.id, rule, confidence, false⟩ }
            leadId record.id := ⟨_, Table.mem_put.mpr (.inl rfl), rfl, rfl⟩
      have hclaimed (r : SourceRecord) :
          r ∈ ((Write.claimRecord record.id leadId).apply st).records ↔
            r = { record with leadId := some leadId } ∨ (r ∈ st.records ∧ r.id ≠ record.id) :=
        Table.mem_update_of_mem hmem (fun r => { r with leadId := some leadId }) fun _ => rfl
      refine Scoped.close (h.updateRecord hmem hsource hclaimed ⟨rfl, hsource⟩ hlinks
        fun l hl => ?_) ⟨_, (hclaimed _).mpr (.inl rfl), hsource, hlinked⟩
      cases hl
      exact hlinked

theorem flag_scoped (record : SourceRecord) (best : Option (Lead × MatchResult)) :
    Txn.Upholds (fun st _ => Scoped before source none st) (flag record best)
      (fun _ st _ => Scoped before source none st) E := by
  unfold flag
  cases best with
  | none => exact .pure fun _ _ h => h
  | some p =>
      dsimp only
      split
      · refine Txn.Upholds.bind (Q := fun _ st _ => Scoped before source none st) ?_ fun _ =>
          .note fun _ _ h => h
        unfold LeadRepository.link
        refine .bind (.query _) fun found => ?_
        have hwritten {st : Store} {merges : Table LeadMerge} (h : Scoped before source none st)
            (hlinks : ∀ l r, st.HasLink l r → Store.HasLink { st with merges } l r) :
            Scoped before source none { st with merges } :=
          h.written (fun _ _ => Iff.rfl) (fun r hr hrs => ⟨r, hr, rfl, hrs⟩) hlinks
            fun r hr l howned => hlinks l r.id (h.owners r hr l howned)
        cases found with
        | some existing =>
            refine .execute fun st _ h => hwritten h.1 fun l r hlink => ?_
            exact hlink.replace (LeadRepository.linkBetween_some h.2.symm).1 rfl ⟨rfl, rfl⟩
        | none =>
            dsimp only
            refine Txn.Upholds.bind (Txn.Upholds.bind (.peek _) fun id => Txn.Upholds.bind
              (Q := fun _ st _ => Scoped before source none st) (.execute fun st _ h => ?_)
                fun _ => .pure fun _ _ h => h) fun _ => .pure fun _ _ h => h
            obtain ⟨⟨h, -⟩, rfl⟩ := h
            exact hwritten h fun l r hlink => hlink.put le_rfl
      · exact .pure fun _ _ h => h

theorem remerge_scoped {record : SourceRecord} (leadRow : Lead) (incoming : NormalizedLead)
    (recordId : Nat) (priority : Int) :
    Txn.Upholds (fun st _ => Kept before source record none st)
      (remerge env leadRow incoming recordId priority)
      (fun _ st _ => Kept before source record (some leadRow.id) st)
      fun st _ => Scoped before source none st := by
  refine .bind (.query _) fun stored => ?_
  cases merge (withIncoming stored incoming recordId priority) with
  | none => exact .raise fun _ _ h => h.1.1
  | some merged =>
      refine .bind (.lift fun _ _ h => h.1.1) fun validation => .execute fun st _ h => ?_
      refine ⟨h.1.1.writeLead (LeadRepository.applyMerged env leadRow merged validation)
        fun l hl => ?_, h.1.2⟩
      rcases Table.mem_replace.mp hl with ⟨rfl, -⟩ | ⟨hl, -⟩
      · exact .inl rfl
      · exact .inr hl

theorem attach_scoped (call : IngestCall) (lead : NormalizedLead) (validation : LeadValidation)
    (record : SourceRecord) (own : Option Lead) :
    Txn.Upholds (fun st _ => Kept before source record none st ∧
        ∀ l, own = some l → record.leadId = some l.id)
      (place.attach env call lead validation record own)
      (fun _ st _ => Scoped before source none st) fun st _ => Scoped before source none st := by
  unfold place.attach
  cases own with
  | some own =>
      refine .bind (((remerge_scoped env own lead record.id call.priority).frame _).conseq
        (fun _ _ h => h) (fun _ _ _ h => h) fun _ _ h => h) fun _ => .note fun st _ h => ?_
      obtain ⟨⟨h, hmem, hsource⟩, howned⟩ := h
      exact h.close ⟨record, hmem, hsource, h.owners record hmem own.id (howned own rfl)⟩
  | none =>
      cases merge [⟨lead, Text.ofNat record.id, call.priority⟩] with
      | none => exact .raise fun _ _ h => h.1.1
      | some merged =>
          refine Txn.Upholds.bind (Q := fun created st _ =>
            Kept before source record (some created.id) st) ?_ fun created =>
              Txn.Upholds.bind (link_scoped created.id initialRule 1) fun _ => .note fun _ _ h => h
          refine .bind (.peek _) fun id => Txn.Upholds.bind (Q := fun _ st _ =>
            Kept before source record (some id) st) (.execute fun st _ h => ?_)
              fun _ => .pure fun _ _ h => h
          obtain ⟨⟨⟨h, hkept⟩, -⟩, rfl⟩ := h
          refine ⟨h.writeLead (LeadRepository.applyMerged env
            (LeadRepository.blank st.leads.next merged) merged validation) fun l hl => ?_, hkept⟩
          rcases Table.mem_put.mp hl with rfl | ⟨hl, -⟩
          · exact .inl rfl
          · exact .inr hl

theorem place_scoped (call : IngestCall) (lead : NormalizedLead) (validation : LeadValidation)
    (record : SourceRecord) (own : Option Lead) (best : Option (Lead × MatchResult)) :
    Txn.Upholds (fun st _ => Kept before source record none st ∧
        ∀ l, own = some l → record.leadId = some l.id)
      (place env call lead validation record own best)
      (fun _ st _ => Scoped before source none st) fun st _ => Scoped before source none st := by
  unfold place
  cases best with
  | none => exact attach_scoped env call lead validation record own
  | some p =>
      dsimp only
      split
      · exact .bind ((remerge_scoped env p.1 lead record.id call.priority).conseq
          (fun _ _ h => h.1) (fun _ _ _ h => h) fun _ _ h => h) fun _ =>
            .bind (link_scoped p.1.id p.2.rule.value p.2.confidence) fun _ => .note fun _ _ h => h
      · exact attach_scoped env call lead validation record own

theorem ownLead_scoped {P : Store → Prop} (record : SourceRecord) :
    Txn.Upholds (fun st _ => P st) (ownLead record)
      (fun own st _ => P st ∧ ∀ l, own = some l → record.leadId = some l.id) E := by
  unfold ownLead
  cases hlead : record.leadId with
  | none => exact .pure fun _ _ h => ⟨h, fun _ hl => by cases hl⟩
  | some leadId =>
      have hget : Txn.Upholds (fun st _ => P st) (LeadRepository.get leadId)
          (fun own st _ => P st ∧ own = st.leads.find? leadId) E := .query _
      refine hget.conseq (fun _ _ h => h) (fun own st _ h => ⟨h.1, ?_⟩) fun _ _ h => h
      rintro l rfl
      exact congrArg some (Table.find?_eq_some.mp h.2.symm).2.symm

theorem bestMatch_scoped {P : Store → Prop} (lead : NormalizedLead) (exclude : Option Nat) :
    Txn.Upholds (fun st _ => P st) (bestMatch env lead exclude) (fun _ st _ => P st) E := by
  refine Txn.Upholds.bind (Q := fun _ st _ => P st) ?_ fun _ => .pure fun _ _ h => h
  unfold LeadRepository.findCandidates
  split
  · exact .read _
  · exact .pure fun _ _ h => h

theorem ingest_scoped (call : IngestCall) (hsource : call.source = source) :
    Txn.Upholds (fun st _ => Scoped before source none st) (ingest env call)
      (fun _ st _ => Scoped before source none st) fun st _ => Scoped before source none st := by
  refine Txn.Upholds.bind (Q := fun _ st _ => Scoped before source none st)
    (.note fun _ _ h => h) fun _ => ?_
  cases call.suppressions.blocks (normalizeRecord env call.raw call.region).toLeadPayload with
  | some _ => exact .note fun _ _ h => h
  | none =>
      refine .bind (.lift fun _ _ h => h) fun validation => Txn.Upholds.bind
        (Q := fun _ st _ => Scoped before source none st) (.note fun _ _ h => h) fun _ => ?_
      rw [hsource]
      refine .bind (upsertRecord_scoped env _ _ _ _) fun p => ?_
      obtain ⟨record, isNew⟩ := p
      exact .bind (ownLead_scoped record) fun own => .bind (bestMatch_scoped env _ _) fun best =>
        .bind (place_scoped env call _ validation record own best) fun _ => flag_scoped record best

theorem processItem_scoped (config : SourceConfig) (jobId : Nat) (suppressions : SuppressionList)
    (item : CollectedItem) :
    Txn.Upholds (fun st _ => Scoped before source none st)
      (processItem env source config jobId suppressions item)
      (fun _ st _ => Scoped before source none st) fun st _ => Scoped before source none st := by
  cases item with
  | error message => exact .note fun _ _ h => h
  | record raw => exact ingest_scoped env _ rfl

end Record

section Run

variable {before : Store} {α : Type} {m : Db α}

/-- No record, no lead and no link was written. -/
def Store.SameLeads (before st : Store) : Prop :=
  st.records = before.records ∧ st.leads = before.leads ∧ st.merges = before.merges

theorem Scoped.opening {st : Store} (hlinked : before.OwnersLinked) (h : before.SameLeads st)
    {source : Source} (sources : Table Source) (hsource : source ∈ sources) :
    Scoped before source none { st with sources } := by
  obtain ⟨hrecords, hleads, hmerges⟩ := h
  refine ⟨fun r _ => ?_, fun l hl => .inl ?_, hlinked.congr hrecords hmerges, hsource⟩
  · rw [← hrecords]
  · rw [← hleads]
    exact hl

theorem Scoped.ofJobs {st : Store} {source : Source} (h : Scoped before source none st) {w : Write}
    (hw : w.OfJobs) : Scoped before source none (w.apply st) := by
  cases w <;> first | exact ⟨h.others, h.leads, h.owners, h.stored⟩ | exact hw.elim

theorem ofJobs_scoped (h : Txn.Composed Write.OfJobs m) (source : Source) (name : Text) :
    Txn.Upholds (fun st _ => Scoped before source none st ∧ source.name = name) m
      (fun _ st _ => Scoped before source none st ∧ source.name = name) fun _ _ => True :=
  (Txn.Upholds.composed h (fun _ _ _ hst hw => ⟨hst.1.ofJobs hw, hst.2⟩)
    fun _ _ _ hst => hst).conseq (fun _ _ hst => hst) (fun _ _ _ hst => hst) fun _ _ _ => trivial

theorem upsert_scoped (hlinked : before.OwnersLinked) (config : SourceConfig) :
    Txn.Upholds (fun st _ => before.SameLeads st)
      (SourceRepository.upsert config.name config.type config.priority config.enabled
        config.options)
      (fun source st _ => Scoped before source none st ∧ source.name = config.name)
      fun _ _ => True := by
  refine .bind (.query _) fun found => ?_
  cases found with
  | none =>
      refine .bind (.peek _) fun id => Txn.Upholds.bind (Q := fun _ st _ =>
        Scoped before ⟨id, config.name, config.type, config.priority, config.enabled,
          config.options⟩ none st) (.execute fun st _ h => ?_) fun _ => .pure fun _ _ h => ⟨h, rfl⟩
      exact .opening hlinked h.1.1 (st.sources.put _) (Table.mem_put.mpr (.inl rfl))
  | some source =>
      have hfound {st : Store} (h : some source = SourceRepository.byName st config.name) :
          source ∈ st.sources ∧ source.name = config.name := by
        simpa using Table.mem_select.mp (List.mem_of_head? h.symm)
      dsimp only
      split
      · refine Txn.Upholds.bind (Q := fun _ st _ => Scoped before { source with
          type := config.type, priority := config.priority, enabled := config.enabled,
          config := config.options } none st ∧ source.name = config.name)
            (.execute fun st _ h => ?_) fun _ => .pure fun _ _ h => h
        obtain ⟨hsource, hname⟩ := hfound h.2
        exact ⟨.opening hlinked h.1 (st.sources.replace _)
          (Table.mem_replace.mpr (.inl ⟨rfl, source, hsource, rfl⟩)), hname⟩
      · rename_i hsame
        refine .pure fun st _ h => ?_
        obtain ⟨hsource, hname⟩ := hfound h.2
        rw [not_not.mp hsame]
        exact ⟨.opening hlinked h.1 st.sources hsource, hname⟩

theorem openRun_scoped (hlinked : before.OwnersLinked) (config : SourceConfig)
    (jobId : Option Nat) (now : Instant) :
    Txn.Upholds (fun st _ => before.SameLeads st) (openRun config jobId now)
      (fun p st _ => Scoped before p.1 none st ∧ p.1.name = config.name) fun _ _ => True :=
  (openRun_upholds (upsert_scoped hlinked config)
    (fun _ source => ofJobs_scoped (JobRepository.create_ofJobs _ _) source config.name)
      (fun _ _ _ _ _ h => h) (fun _ _ _ _ => trivial) fun source _ =>
        ofJobs_scoped (JobRepository.assign_ofJobs _ _) source config.name).conseq
          (fun _ _ h => h) (fun _ _ _ h => h.1) fun _ _ h => h

theorem runCollection_scoped (env : Platform) (hlinked : before.OwnersLinked)
    (config : SourceConfig) (jobId : Option Nat) (collection : Collection)
    (startedAt finishedAt : Instant) :
    Txn.Upholds (fun st _ => before.SameLeads st)
      (runCollection env config jobId collection startedAt finishedAt)
      (fun _ st _ => ∃ source, Scoped before source none st ∧ source.name = config.name)
      fun _ _ => True := by
  refine .bind (openRun_scoped hlinked config jobId startedAt) fun opened => ?_
  obtain ⟨source, job, suppressions⟩ := opened
  have hitems : Txn.Upholds (fun st _ => Scoped before source none st) (Txn.attemptEach
      (processItem env source config job.id suppressions) RunStats.countError collection.items)
      (fun _ st _ => Scoped before source none st) fun _ _ => True :=
    .attemptEach (fun item _ => processItem_scoped env config job.id suppressions item.1)
      fun _ _ h => h
  refine .bind (hitems.frame (source.name = config.name)) fun _ => ?_
  exact (ofJobs_scoped (closeRun_ofJobs job _ _) source config.name).conseq (fun _ _ h => h)
    (fun _ _ _ h => ⟨source, h⟩) fun _ _ h => h

end Run

theorem Transaction.program_composed (env : Platform) (t : Transaction)
    (ht : ∀ config jobId collection startedAt finishedAt,
      t ≠ .collect config jobId collection startedAt finishedAt) :
    Txn.Composed Write.OfRuns (t.program env) :=
  t.program_rules (Txn.Composed.rules Write.OfRuns fun _ => False) upsertSource_composed
    (fun _ _ => Db.insert_composed _ _ _ fun _ => trivial)
      fun _ _ _ _ _ hcollect => absurd hcollect (ht _ _ _ _ _)

namespace Store

variable {env : Platform} {st : Store}

theorem OwnersLinked.ofRuns (h : st.OwnersLinked) {w : Write} (hw : w.OfRuns) :
    (w.apply st).OwnersLinked := by
  cases w <;> first | exact h | exact hw.elim

theorem OwnersLinked.commit (h : st.OwnersLinked) (t : Transaction) {fault : Option Nat}
    {st' : Store} (hcommit : Txn.commit (t.program env) (Transaction.session st fault) = .ok st') :
    st'.OwnersLinked := by
  have hkept (ht : ∀ config jobId collection startedAt finishedAt,
      t ≠ .collect config jobId collection startedAt finishedAt) : st'.OwnersLinked := by
    obtain ⟨-, -, hst⟩ := (Txn.Upholds.composed (P := fun st _ => st.OwnersLinked)
      (t.program_composed env ht) (fun _ _ _ hst hw => hst.ofRuns hw) fun _ _ _ hst =>
        hst).commits (s := Transaction.session st fault) h hcommit
    exact hst
  cases t with
  | collect config jobId collection startedAt finishedAt =>
      obtain ⟨-, -, source, hst, -⟩ := (runCollection_scoped env h config jobId collection startedAt
        finishedAt).commits (s := Transaction.session st fault) ⟨rfl, rfl, rfl⟩ hcommit
      exact hst.owners
  | _ => exact hkept (by simp)

theorem OwnersLinked.step (h : st.OwnersLinked) (op : Operation) :
    (op.step env st).OwnersLinked := by
  cases op with
  | transaction t fault =>
      change (t.perform env st fault).OwnersLinked
      unfold Transaction.perform
      cases hcommit : Txn.commit (t.program env) (Transaction.session st fault) with
      | ok st' => exact h.commit t hcommit
      | error e => exact h
  | claim worker now locked =>
      change (Queue.claim st worker now locked).2.OwnersLinked
      unfold Queue.claim
      split
      · exact h
      · exact h
  | fail job error now jitter =>
      change (Queue.fail st job error now jitter).2.OwnersLinked
      unfold Queue.fail
      split
      · exact h
      · exact h
  | heartbeat | recoverStale | unsuppress => exact h
  | deleteLead leadId suppressed =>
      exact deleteLeadRoute_keeps env (fun _ leadId hst => hst.deleteLead leadId)
        (fun _ _ hst => hst) h leadId suppressed
  | purge cutoff => exact Store.purge_keeps (fun _ leadId hst => hst.deleteLead leadId) h cutoff
  | suppress kind value reason =>
      obtain ⟨suppressions, hkeep⟩ := SuppressionRepository.add_keeps env st kind value reason
      change (SuppressionRepository.add env st kind value reason).OwnersLinked
      rw [hkeep]
      exact h
  | removeValue kind value =>
      exact SuppressionRepository.removeValue_keeps env (fun _ _ hst => hst) h kind value

theorem Reached.ownersLinked (h : st.Reached env) : st.OwnersLinked := by
  obtain ⟨ops, rfl⟩ := h
  refine execute_invariant (I := OwnersLinked) ?_ (fun _ op hst => hst.step op) ops
  exact fun r hr => absurd hr (Table.not_mem_empty r)

/-- The provenance of a lead names the source of every record it is linked to. -/
theorem Credited.provenance {source : Source} {leadId : Nat} (h : st.Credited source.id leadId)
    (hsource : source ∈ st.sources) :
    ∃ p ∈ LeadRepository.provenance st leadId, p.sourceName = source.name := by
  obtain ⟨r, hr, hid, m, hm, hlead, hrecord⟩ := h
  have hfind : st.records.find? m.sourceRecordId = some r :=
    Table.find?_eq_some.mpr ⟨hr, hrecord.symm⟩
  have hfindSource : st.sources.find? r.sourceId = some source :=
    Table.find?_eq_some.mpr ⟨hsource, hid.symm⟩
  refine ⟨⟨source.name, r.id, r.sourceUrl, m.rule, m.confidence, m.needsReview⟩, ?_, rfl⟩
  refine List.mem_filterMap.mpr ⟨m, Table.mem_select.mpr ⟨hm, by simp [hlead]⟩, ?_⟩
  simp [LeadRepository.toProvenance, hfind, hfindSource]

end Store

/-- A collection that is committed leaves the records of all other sources as they were, and the
provenance of every lead that it has added or changed names its source. -/
theorem collections_keep_to_their_source {env : Platform} {st : Store} (h : st.Reached env)
    (config : SourceConfig) (jobId : Option Nat) (collection : Collection)
    (startedAt finishedAt : Instant) (fault : Option Nat) {st' : Store}
    (hcommit : Txn.commit (runCollection env config jobId collection startedAt finishedAt)
      (Transaction.session st fault) = .ok st') :
    ∃ source ∈ st'.sources, source.name = config.name ∧
      (∀ r : SourceRecord, r.sourceId ≠ source.id → (r ∈ st'.records ↔ r ∈ st.records)) ∧
        ∀ l ∈ st'.leads, l ∈ st.leads ∨
          ∃ p ∈ LeadRepository.provenance st' l.id, p.sourceName = config.name := by
  obtain ⟨-, -, source, hst, hname⟩ := (runCollection_scoped env h.ownersLinked config jobId
    collection startedAt finishedAt).commits (s := Transaction.session st fault) ⟨rfl, rfl, rfl⟩
      hcommit
  refine ⟨source, hst.stored, hname, hst.others, fun l hl => ?_⟩
  rcases hst.leads l hl with hold | hcredited | hopen
  · exact .inl hold
  · rw [← hname]
    exact .inr (hcredited.provenance hst.stored)
  · cases hopen

/-- Another source has a record of the same company, which joins its lead. -/
theorem collections_keep_to_their_source_joined :
    let st := execute (Operation.step .ascii) .empty collectedOnce
    ∃ st', Txn.commit (runCollection .ascii { Worker.csvTask.config with name := "other".toList }
        none ⟨[(Worker.csvItem "7".toList "a@x.fi", none)], .ok ()⟩ 3 4)
          (Transaction.session st none) = .ok st' ∧
      ∃ source ∈ st'.sources, source.name = "other".toList ∧
        (∀ r : SourceRecord, r.sourceId ≠ source.id → (r ∈ st'.records ↔ r ∈ st.records)) ∧
          ∀ l ∈ st'.leads, l ∈ st.leads ∨
            ∃ p ∈ LeadRepository.provenance st' l.id, p.sourceName = "other".toList := by
  intro st
  have hcommitted : (Txn.commit (runCollection .ascii
      { Worker.csvTask.config with name := "other".toList } none
        ⟨[(Worker.csvItem "7".toList "a@x.fi", none)], .ok ()⟩ 3 4)
          (Transaction.session st none)).isOk = true := by
    decide +kernel
  cases hcommit : Txn.commit (runCollection .ascii
      { Worker.csvTask.config with name := "other".toList } none
        ⟨[(Worker.csvItem "7".toList "a@x.fi", none)], .ok ()⟩ 3 4)
          (Transaction.session st none) with
  | error e =>
      rw [hcommit] at hcommitted
      cases hcommitted
  | ok st' =>
      exact ⟨st', rfl,
        collections_keep_to_their_source ⟨collectedOnce, rfl⟩ _ none _ 3 4 none hcommit⟩

end LeadPipe
