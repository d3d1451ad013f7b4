import LeadPipe.Db.Constraints
import LeadPipe.Framework.Triple
import LeadPipe.Repositories.Jobs
import LeadPipe.Repositories.Leads
import LeadPipe.Repositories.Records
import LeadPipe.Repositories.Suppressions

/-!
# The repositories and the constraints

What each repository is given, and what it leaves: on tables that satisfy the constraints, and with
the rows there that its arguments name, none of its statements violates a constraint.
-/

namespace LeadPipe

open Framework

theorem Db.insert_triple {ρ : Type} {G : Store → Write → Prop} {P : Store → Prop}
    {Q : ρ → Store → Prop} {next : Store → Nat} {write : ρ → Write} {row : Nat → ρ}
    (h : ∀ st, P st → G st (write (row (next st))) ∧
      Q (row (next st)) ((write (row (next st))).apply st)) :
    Txn.Triple G P (Db.insert next write row) Q := by
  refine .bind (.peek next) fun id => ?_
  have hwrite : Txn.Triple G (fun st => P st ∧ id = next st)
      (Txn.execute (write (row id)) : Db Unit) fun _ => Q (row id) := by
    refine .execute fun st hst => ?_
    obtain ⟨hst, rfl⟩ := hst
    exact h st hst
  exact .bind hwrite fun _ => .pure fun _ hst => hst

/-- What the program makes of the tables, whatever it writes. -/
abbrev Db.Ensures {α : Type} (P : Store → Prop) (m : Db α) (Q : α → Store → Prop) : Prop :=
  Txn.Triple (fun _ _ => True) P m Q

/-- Run on tables that satisfy the constraints and hold the rows, the program violates none; what it
returns names rows that are there as well. -/
def Db.Safe {α : Type} (rows : List RowRef) (m : Db α) (names : α → List RowRef) : Prop :=
  Txn.Triple Store.Admits (Store.Supports rows) m fun a => Store.Supports (names a ++ rows)

namespace Db.Safe

variable {α β : Type} {rows : List RowRef} {m : Db α} {names : α → List RowRef}
  {names' : β → List RowRef}

theorem bind {f : α → Db β} (hm : Safe rows m names)
    (hf : ∀ a, Safe (names a ++ rows) (f a) names') : Safe rows (m >>= f) names' :=
  Txn.Triple.bind hm fun a => (hf a).conseq (fun _ hv => hv) fun _ _ hv => hv.mono fun _ href => by
    rcases List.mem_append.mp href with hnew | hold
    · exact List.mem_append_left _ hnew
    · exact List.mem_append_right _ (List.mem_append_right _ hold)

theorem pure {a : α} (hsub : names a ⊆ rows) : Safe rows (Pure.pure a) names :=
  Txn.Triple.pure fun _ hv => hv.append fun ref href => hv.2 ref (hsub href)

theorem note (f : RunStats → RunStats) : Safe rows (Txn.note f) fun _ => [] := Txn.Triple.note f

theorem raise (e : PyError) : Safe rows (Txn.raise e : Db α) names := Txn.Triple.raise e

theorem lift (x : Except PyError α) : Safe rows (Txn.lift x : Db α) fun _ => [] :=
  (Txn.Triple.lift x).conseq (fun _ hv => hv) fun _ _ hv => hv.1

theorem query {f : Store → α}
    (hnames : ∀ st : Store, st.Supports rows → ∀ ref ∈ names (f st), st.Holds ref) :
    Safe rows (Txn.query f) names :=
  (Txn.Triple.query f).conseq (fun _ hv => hv) fun a v hv => by
    rw [hv.2]
    exact hv.1.append (hnames v hv.1)

theorem read (f : Store → α) : Safe rows (Txn.query f) fun _ => [] :=
  query fun _ _ _ href => absurd href List.not_mem_nil

theorem execute {w : Write} (h : ∀ st : Store, st.Supports rows → st.Admits w) :
    Safe rows (Txn.execute w) fun _ => [] :=
  Txn.Triple.execute fun v hv => ⟨h v hv, hv.write (h v hv)⟩

theorem insert {ρ : Type} {P : Store → Prop} {next : Store → Nat} {write : ρ → Write}
    {row : Nat → ρ} (names : ρ → List RowRef) (hsound : ∀ st, P st → st.Supports rows)
    (hrow : ∀ st, P st → st.Admits (write (row (next st))) ∧
      ∀ ref ∈ names (row (next st)), ((write (row (next st))).apply st).Holds ref) :
    Txn.Triple Store.Admits P (Db.insert next write row)
      fun a => Store.Supports (names a ++ rows) :=
  Db.insert_triple fun st hst => by
    obtain ⟨hadmits, hnew⟩ := hrow st hst
    exact ⟨hadmits, ((hsound st hst).write hadmits).append hnew⟩

end Db.Safe

variable {rows : List RowRef}

namespace SourceRepository

theorem upsert_safe (name type : Text) (priority : Int) (enabled : Bool) (config : Text) :
    Db.Safe rows (upsert name type priority enabled config) fun source => [.source source.id] := by
  refine Txn.Triple.bind (.query _) fun found => ?_
  cases found with
  | none =>
      refine Db.Safe.insert _ (fun _ hst => hst.1) fun st hst => ⟨⟨le_rfl, fun a ha _ => ?_⟩, ?_⟩
      · exact byName_eq_none.mp hst.2.symm a ha
      · exact List.forall_mem_singleton.mpr (Table.has_put st.sources _)
  | some source =>
      have hfound {st : Store} (hst : st.Supports rows ∧ some source = byName st name) :
          source ∈ st.sources :=
        (Table.mem_select.mp (List.mem_of_head? hst.2.symm)).1
      have hheld {st : Store} (hst : st.Supports rows ∧ some source = byName st name) :
          st.Supports ([.source source.id] ++ rows) :=
        hst.1.append (List.forall_mem_singleton.mpr ⟨source, hfound hst, rfl⟩)
      dsimp only
      split
      · refine Txn.Triple.bind (.execute fun st hst => ?_) fun _ => .pure fun _ hst => hst
        have hadmits : st.Admits (.updateSource { source with type, priority, enabled, config }) :=
          ⟨⟨source, hfound hst, rfl⟩, hst.1.1.names.accepts (hfound hst) rfl rfl⟩
        exact ⟨hadmits, (hheld hst).write hadmits⟩
      · exact .pure fun _ hst => hheld hst

end SourceRepository

namespace JobRepository

theorem create_safe {sourceId : Nat} (hsource : .source sourceId ∈ rows) (now : Instant) :
    Db.Safe rows (create sourceId now) fun job => [.job job.id] :=
  Db.Safe.insert _ (fun _ hst => hst) fun st hst => ⟨⟨le_rfl, hst.2 _ hsource⟩,
    List.forall_mem_singleton.mpr (Table.has_put st.jobs _)⟩

theorem get_safe (jobId : Nat) :
    Db.Safe rows (get jobId) fun job => (job.map fun j => .job j.id).toList :=
  .query fun st _ ref href => by
    obtain ⟨job, hjob, rfl⟩ : ∃ job, st.jobs.find? jobId = some job ∧ .job job.id = ref := by
      simpa using href
    exact ⟨job, (Table.find?_eq_some.mp hjob).1, rfl⟩

theorem assign_safe {loaded : CollectionJob} (hloaded : .job loaded.id ∈ rows)
    {assigned : CollectionJob} (hid : assigned.id = loaded.id) :
    Db.Safe rows (assign loaded assigned) fun job => [.job job.id] := by
  have hreturn : Db.Safe rows (pure assigned) fun job => [.job job.id] :=
    .pure (by simpa [hid] using hloaded)
  unfold assign
  dsimp only
  split
  · exact .bind (.execute fun _ hst => hst.2 _ hloaded) fun _ => hreturn
  · exact hreturn

theorem markRunning_safe {job : CollectionJob} (hjob : .job job.id ∈ rows) (now : Instant) :
    Db.Safe rows (markRunning job now) fun job => [.job job.id] :=
  assign_safe hjob rfl

theorem markFinished_safe {job : CollectionJob} (hjob : .job job.id ∈ rows) (status : JobStatus)
    (error : Option Text) (now : Instant) :
    Db.Safe rows (markFinished job status error now) fun job => [.job job.id] :=
  assign_safe hjob rfl

theorem resultOf_eq_none {st : Store} {jobId : Nat} :
    resultOf st jobId = none ↔ ∀ r ∈ st.results, r.jobId ≠ jobId := by
  simp [resultOf, Table.select, Table.mem_def]

theorem saveResults_safe {jobId : Nat} (hjob : .job jobId ∈ rows) (counters : Persisted) :
    Db.Safe rows (saveResults jobId counters) fun _ => [] := by
  refine Txn.Triple.bind (.query _) fun found => ?_
  cases found with
  | none =>
      refine Txn.Triple.bind (Db.Safe.insert (fun _ => []) (fun _ hst => hst.1) fun st hst => ?_)
        fun _ => .pure fun _ hst => hst
      refine ⟨⟨le_rfl, fun a ha _ => ?_, hst.1.2 _ hjob⟩, by simp⟩
      exact resultOf_eq_none.mp hst.2.symm a ha
  | some row =>
      refine .execute fun st hst => ?_
      have hrow := Table.mem_select.mp (List.mem_of_head? hst.2.symm)
      have hadmits : st.Admits (.updateResult { row with counters }) := by
        refine ⟨⟨row, hrow.1, rfl⟩, hst.1.1.resultOnce.accepts hrow.1 rfl rfl, ?_⟩
        exact hst.1.1.resultJob row hrow.1 _ rfl
      exact ⟨hadmits, hst.1.write hadmits⟩

end JobRepository

variable (env : Platform)

namespace SourceRecordRepository

theorem byKey_eq_none {st : Store} {sourceId : Nat} {recordKey : Text} :
    byKey st sourceId recordKey = none ↔
      ∀ r ∈ st.records, (r.sourceId, r.recordKey) ≠ (sourceId, recordKey) := by
  simp [byKey, Table.select, Table.mem_def]

theorem upsert_safe {sourceId jobId : Nat} (hsource : .source sourceId ∈ rows)
    (hjob : .job jobId ∈ rows) (lead : NormalizedLead) (validation : LeadValidation)
    (externalId : Option Text) :
    Db.Safe rows (upsert env sourceId lead validation (some jobId) externalId)
      fun p => [.record p.1.id] := by
  have hresolves {st : Store} (hst : st.Supports rows) : st.jobs.Resolves (some jobId) :=
    fun i hi => by cases hi; exact hst.2 _ hjob
  refine Txn.Triple.bind (.query _) fun found => ?_
  cases found with
  | none =>
      refine Txn.Triple.bind (Db.Safe.insert (fun row => [.record row.id]) (fun _ hst => hst.1)
        fun st hst => ⟨⟨le_rfl, ?_⟩, ?_⟩) fun _ => .pure fun _ hst => hst
      · refine ⟨fun a ha _ => byKey_eq_none.mp hst.2.symm a ha, hst.1.2 _ hsource,
          hresolves hst.1, ?_⟩
        intro i hi
        cases hi
      · exact List.forall_mem_singleton.mpr (Table.has_put st.records _)
  | some record =>
      have hwrite : Txn.Triple Store.Admits (fun st => st.Supports rows ∧
            some record = byKey st sourceId (recordKey env lead externalId))
          (Txn.execute (.updateRecord (fill env record lead validation (some jobId) externalId)) :
            Db Unit) fun _ => Store.Supports ([.record record.id] ++ rows) := by
        refine .execute fun st hst => ?_
        have hrow := (Table.mem_select.mp (List.mem_of_head? hst.2.symm)).1
        have hadmits : st.Admits
            (.updateRecord (fill env record lead validation (some jobId) externalId)) := by
          refine ⟨⟨record, hrow, rfl⟩, hst.1.1.recordKeys.accepts hrow rfl rfl, ?_,
            hresolves hst.1, ?_⟩
          · exact hst.1.1.recordSource record hrow _ rfl
          · exact hst.1.1.recordLead record hrow
        have hheld : st.Holds (.record record.id) := ⟨record, hrow, rfl⟩
        exact ⟨hadmits, (hst.1.append (List.forall_mem_singleton.mpr hheld)).write hadmits⟩
      exact .bind hwrite fun _ => .pure fun _ hst => hst

end SourceRecordRepository

namespace LeadRepository

theorem get_safe (leadId : Nat) :
    Db.Safe rows (get leadId) fun lead => (lead.map fun l => .lead l.id).toList :=
  .query fun st _ ref href => by
    obtain ⟨lead, hlead, rfl⟩ : ∃ l, st.leads.find? leadId = some l ∧ .lead l.id = ref := by
      simpa using href
    exact ⟨lead, (Table.find?_eq_some.mp hlead).1, rfl⟩

theorem findCandidates_safe (fp : Fingerprints) :
    Db.Safe rows (findCandidates env fp) fun leads => leads.map fun l => .lead l.id := by
  unfold findCandidates
  split
  · refine .query fun st _ ref href => ?_
    obtain ⟨lead, hlead, rfl⟩ := List.mem_map.mp href
    exact ⟨lead, (Table.mem_select.mp (List.mem_of_mem_take hlead)).1, rfl⟩
  · exact .pure (by simp)

theorem create_safe (merged : MergedLead) (validation : LeadValidation) :
    Db.Safe rows (create env merged validation) fun lead => [.lead lead.id] :=
  Db.Safe.insert _ (fun _ hst => hst) fun st _ => ⟨le_rfl,
    List.forall_mem_singleton.mpr (Table.has_put st.leads _)⟩

theorem update_safe {lead : Lead} (hlead : .lead lead.id ∈ rows) (merged : MergedLead)
    (validation : LeadValidation) : Db.Safe rows (update env lead merged validation) fun _ => [] :=
  .execute fun _ hst => hst.2 _ hlead

theorem linkBetween_eq_none {st : Store} {leadId recordId : Nat} :
    linkBetween st leadId recordId = none ↔
      ∀ m ∈ st.merges, (m.leadId, m.sourceRecordId) ≠ (leadId, recordId) := by
  simp [linkBetween, Table.select, Table.mem_def]

theorem link_safe {leadId recordId : Nat} (hlead : .lead leadId ∈ rows)
    (hrecord : .record recordId ∈ rows) (rule : Text) (confidence : ℚ)
    (needsReview claim : Bool) :
    Db.Safe rows (link leadId recordId rule confidence needsReview claim) fun _ => [] := by
  refine Txn.Triple.bind (.query _) fun found => ?_
  cases found with
  | some existing =>
      refine .execute fun st hst => ?_
      have hrow := Table.mem_select.mp (List.mem_of_head? hst.2.symm)
      have hadmits : st.Admits (.updateMerge { existing with rule, confidence, needsReview }) := by
        refine ⟨⟨existing, hrow.1, rfl⟩, hst.1.1.pairs.accepts hrow.1 rfl rfl, ?_, ?_⟩
        · exact hst.1.1.mergeLead existing hrow.1 _ rfl
        · exact hst.1.1.mergeRecord existing hrow.1 _ rfl
      exact ⟨hadmits, hst.1.write hadmits⟩
  | none =>
      have hinsert : Txn.Triple Store.Admits
          (fun st => st.Supports rows ∧ none = linkBetween st leadId recordId)
          (do
            let _ ← Db.insert (fun st => st.merges.next) .insertMerge fun id =>
              (⟨id, leadId, recordId, rule, confidence, needsReview⟩ : LeadMerge)
            return () : Db Unit) fun _ => Store.Supports ([] ++ rows) := by
        refine .bind (Db.Safe.insert (fun _ => []) (fun _ hst => hst.1) fun st hst => ?_)
          fun _ => .pure fun _ hst => hst
        refine ⟨⟨le_rfl, fun a ha _ => ?_, hst.1.2 _ hlead, hst.1.2 _ hrecord⟩, by simp⟩
        exact linkBetween_eq_none.mp hst.2.symm a ha
      dsimp only
      split
      · refine .bind (.execute fun st hst => ?_) fun _ => hinsert
        have hadmits : st.Admits (.claimRecord recordId leadId) :=
          ⟨hst.1.2 _ hrecord, hst.1.2 _ hlead⟩
        exact ⟨hadmits, hst.1.write hadmits, hst.2⟩
      · exact hinsert

end LeadRepository

theorem Store.purge_keeps {P : Store → Prop} (hdelete : ∀ st leadId, P st → P (st.deleteLead leadId))
    {st : Store} (h : P st) (cutoff : Instant) : P (st.purgeOlderThan cutoff) := by
  unfold Store.purgeOlderThan
  generalize (st.leads.select fun l => l.lastSeenAt < cutoff) = leads
  induction leads generalizing st with
  | nil => exact h
  | cons l leads ih => exact ih (hdelete st l.id h)

theorem deleteLeadRoute_keeps {P : Store → Prop}
    (hdelete : ∀ st leadId, P st → P (st.deleteLead leadId))
    (hsuppress : ∀ (st : Store) suppressions, P st → P { st with suppressions }) {st : Store}
    (h : P st) (leadId : Nat) (suppressed : Bool) :
    P ((deleteLeadRoute env st leadId suppressed).getD st) := by
  unfold deleteLeadRoute
  cases st.leads.find? leadId with
  | none => exact h
  | some lead =>
      cases suppressed with
      | false => exact hdelete st leadId h
      | true =>
          obtain ⟨suppressions, hadd⟩ := SuppressionRepository.addForLead_keeps env st lead.email
            lead.websiteDomain ("lead ".toList ++ Text.ofNat leadId ++ " deleted".toList)
          have hadded := hsuppress st suppressions h
          rw [← hadd] at hadded
          exact hdelete _ leadId hadded

namespace Store.Consistent

variable {st : Store}

theorem deleteLead (h : st.Consistent) (leadId : Nat) : (st.deleteLead leadId).Consistent :=
  { h with
    recordKeys := h.recordKeys.erase _
    pairs := h.pairs.erase _
    recordSource := h.recordSource.erase _
    recordJob := h.recordJob.erase _
    recordLead := h.recordLead.cascade fun r _ hkept l _ hl => by
      rw [beq_eq_false_iff_ne] at hkept ⊢
      intro hid
      exact hkept (by rw [hl, key_lead, hid])
    mergeLead := h.mergeLead.cascade fun m _ hkept l _ hl => by
      have hlead : m.leadId = l.id := Option.some.inj hl
      simp only [Bool.or_eq_false_iff, beq_eq_false_iff_ne] at hkept ⊢
      rw [← hlead]
      exact hkept.1
    mergeRecord := h.mergeRecord.cascade fun m _ hkept r hr hid => by
      have hrecord : m.sourceRecordId = r.id := Option.some.inj hid
      have hfind : st.records.find? r.id = some r := Table.find?_eq_some.mpr ⟨hr, rfl⟩
      simp only [Bool.or_eq_false_iff, hrecord, hfind, Option.any_some] at hkept
      exact hkept.2
    leadsFromOne := ⟨h.leadsFromOne.1, fun l hl => h.leadsFromOne.2 l (Table.mem_erase.mp hl).1⟩ }

theorem purgeOlderThan (h : st.Consistent) (cutoff : Instant) :
    (st.purgeOlderThan cutoff).Consistent :=
  purge_keeps (fun _ leadId hst => hst.deleteLead leadId) h cutoff

theorem add (h : st.Consistent) (kind : SuppressionKind) (value : Text) (reason : Option Text) :
    (SuppressionRepository.add env st kind value reason).Consistent := by
  unfold SuppressionRepository.add
  dsimp only
  split
  · exact h
  · rename_i hnew
    refine h.putSuppression fun s hs _ hsame => hnew ?_
    obtain ⟨hkind, hvalue⟩ : s.kind = kind ∧ s.value = normalizeValue env kind value := by
      simpa using hsame
    simpa using SuppressionRepository.mem_values.mpr ⟨s, hs, hkind, hvalue⟩

theorem addIf (h : st.Consistent) (kind : SuppressionKind) (value : Option Text) (reason : Text) :
    (SuppressionRepository.addIf env st kind value reason).Consistent := by
  cases value with
  | none => exact h
  | some v =>
      simp only [SuppressionRepository.addIf]
      split
      · exact h
      · exact h.add env kind v (some reason)

theorem deleteLeadRoute (h : st.Consistent) (leadId : Nat) (suppress : Bool) :
    ((deleteLeadRoute env st leadId suppress).getD st).Consistent := by
  unfold LeadPipe.deleteLeadRoute
  cases st.leads.find? leadId with
  | none => exact h
  | some lead =>
      cases suppress with
      | false => exact h.deleteLead leadId
      | true => exact ((h.addIf env _ _ _).addIf env _ _ _).deleteLead leadId

end Store.Consistent

end LeadPipe
