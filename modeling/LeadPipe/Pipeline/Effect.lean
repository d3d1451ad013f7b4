import LeadPipe.Pipeline.Ingest

/-!
# What a completed call leaves in the tables

`Settles` describes the store after an unblocked call table by table: one record row, one
lead row, and links that only concern that record. Its two parameters are the validation of
the record and the row of the lead the call rebuilt or created.
-/

namespace LeadPipe

open Framework

variable (env : Platform)

namespace SourceRecordRepository

theorem byKey_some {st : Store} {sourceId : Nat} {recordKey : Text} {r : SourceRecord}
    (h : byKey st sourceId recordKey = some r) :
    r ∈ st.records ∧ r.sourceId = sourceId ∧ r.recordKey = recordKey := by
  have hr := List.mem_of_head? h
  rw [Table.mem_select] at hr
  simpa using hr

theorem byKey_none {st : Store} {sourceId : Nat} {recordKey : Text}
    (h : byKey st sourceId recordKey = none) (r : SourceRecord) (hr : r ∈ st.records) :
    ¬(r.sourceId = sourceId ∧ r.recordKey = recordKey) := by
  intro hkey
  have hmem : r ∈ st.records.select
      fun r => r.sourceId == sourceId && r.recordKey == recordKey := by
    rw [Table.mem_select]
    simpa using And.intro hr hkey
  rw [List.head?_eq_none_iff.mp h] at hmem
  simp at hmem

end SourceRecordRepository

namespace LeadRepository

theorem linkBetween_some {st : Store} {leadId recordId : Nat} {m : LeadMerge}
    (h : linkBetween st leadId recordId = some m) :
    m ∈ st.merges ∧ m.leadId = leadId ∧ m.sourceRecordId = recordId := by
  have hm := List.mem_of_head? h
  rw [Table.mem_select] at hm
  simpa using hm

theorem linkBetween_none {st : Store} {leadId recordId : Nat}
    (h : ∀ m ∈ st.merges, ¬(m.leadId = leadId ∧ m.sourceRecordId = recordId)) :
    linkBetween st leadId recordId = none := by
  refine List.head?_eq_none_iff.mpr (List.eq_nil_iff_forall_not_mem.mpr fun m hm => ?_)
  rw [Table.mem_select] at hm
  exact h m hm.1 (by simpa using hm.2)

theorem mem_shortlist {st : Store} {fp : Fingerprints} {policy : MatchPolicy} {limit : Nat}
    {l : Lead} (h : l ∈ shortlist env st fp policy limit) : l ∈ st.leads :=
  (Table.mem_select.mp (List.mem_of_mem_take h)).1

end LeadRepository

section BestMatch

variable {lead : NormalizedLead} {exclude : Option Nat}

theorem betterMatch_cases (best : Option (Lead × MatchResult)) (c : Lead) :
    betterMatch env lead exclude best c = best ∨
      ∃ result, betterMatch env lead exclude best c = some (c, result) ∧ some c.id ≠ exclude ∧
        matchLeads env lead (asNormalized c lead) = some result := by
  unfold betterMatch
  split
  · exact .inl rfl
  · rename_i hex
    split
    · exact .inl rfl
    · rename_i result hm
      split
      · exact .inr ⟨result, rfl, hex, hm⟩
      · split
        · exact .inr ⟨result, rfl, hex, hm⟩
        · exact .inl rfl

theorem pickBest_some {candidates : List Lead} {existing : Lead} {result : MatchResult}
    (h : pickBest env lead exclude candidates = some (existing, result)) :
    existing ∈ candidates ∧ some existing.id ≠ exclude ∧
      matchLeads env lead (asNormalized existing lead) = some result := by
  suffices hfold : ∀ best : Option (Lead × MatchResult),
      candidates.foldl (betterMatch env lead exclude) best = some (existing, result) →
        best = some (existing, result) ∨ (existing ∈ candidates ∧ some existing.id ≠ exclude ∧
          matchLeads env lead (asNormalized existing lead) = some result) by
    simpa using hfold none h
  clear h
  induction candidates with
  | nil => exact fun best h => .inl h
  | cons c cs ih =>
      intro best h
      rcases ih _ h with hbest | ⟨hmem, hmatch⟩
      · rcases betterMatch_cases env best c with hkeep | ⟨r, htake, hex, hm⟩
        · exact .inl (hkeep ▸ hbest)
        · rw [htake] at hbest
          obtain ⟨rfl, rfl⟩ : c = existing ∧ r = result := by simpa using hbest
          exact .inr ⟨List.mem_cons_self, hex, hm⟩
      · exact .inr ⟨List.mem_cons_of_mem _ hmem, hmatch⟩

end BestMatch

namespace Store

variable {env} {st : Store} {call : IngestCall}

theorem bestOf_some {existing : Lead} {result : MatchResult}
    (h : st.bestOf env call = some (existing, result)) :
    existing ∈ st.leads ∧ (st.ownOf env call).map Lead.id ≠ some existing.id ∧
      matchLeads env (call.lead env) (asNormalized existing (call.lead env)) = some result := by
  obtain ⟨hmem, hex, hm⟩ := pickBest_some env h
  refine ⟨?_, hex.symm, hm⟩
  simp only [shortlistOf] at hmem
  split at hmem
  · exact LeadRepository.mem_shortlist env hmem
  · simp at hmem

theorem ownOf_some {own : Lead} (h : st.ownOf env call = some own) :
    own ∈ st.leads ∧ (st.recordOf env call).bind SourceRecord.leadId = some own.id := by
  obtain ⟨leadId, hid, hf⟩ := Option.bind_eq_some_iff.mp h
  obtain ⟨hmem, rfl⟩ := Table.find?_eq_some.mp hf
  exact ⟨hmem, hid⟩

theorem decision_cases (env : Platform) (st : Store) (call : IngestCall) :
    (∃ existing result, st.bestOf env call = some (existing, result) ∧
      result.autoMerge = true ∧ st.decision env call = .join existing result) ∨
    ((∀ existing result, st.bestOf env call = some (existing, result) →
      result.autoMerge = false) ∧ st.decision env call = st.alone env call) := by
  unfold decision
  cases st.bestOf env call with
  | none => exact .inr ⟨by simp, rfl⟩
  | some best =>
      obtain ⟨existing, result⟩ := best
      by_cases ha : result.autoMerge = true
      · exact .inl ⟨existing, result, rfl, ha, by simp only [ha, if_true]⟩
      · refine .inr ⟨?_, by simp only [ha, Bool.false_eq_true, if_false]⟩
        intro l r h
        obtain ⟨rfl, rfl⟩ : existing = l ∧ result = r := by simpa using h
        simpa using ha

theorem alone_ne_join (existing : Lead) (result : MatchResult) :
    st.alone env call ≠ .join existing result := by
  unfold alone
  cases st.ownOf env call <;> simp

theorem decision_join {existing : Lead} {result : MatchResult}
    (h : st.decision env call = .join existing result) :
    st.bestOf env call = some (existing, result) ∧ result.autoMerge = true := by
  rcases decision_cases env st call with ⟨l, r, hb, ha, hd⟩ | ⟨-, hd⟩
  · rw [hd] at h
    obtain ⟨rfl, rfl⟩ : l = existing ∧ r = result := by simpa using h
    exact ⟨hb, ha⟩
  · exact absurd (hd.symm.trans h) (alone_ne_join existing result)

theorem decision_refresh {own : Lead} (h : st.decision env call = .refresh own) :
    st.ownOf env call = some own := by
  rcases decision_cases env st call with ⟨l, r, -, -, hd⟩ | ⟨-, hd⟩
  · simp [hd] at h
  · rw [hd, alone] at h
    cases ho : st.ownOf env call with
    | none => simp [ho] at h
    | some l =>
        rw [ho] at h
        simpa using h

theorem decision_found (h : st.decision env call = .found) : st.ownOf env call = none := by
  rcases decision_cases env st call with ⟨l, r, -, -, hd⟩ | ⟨-, hd⟩
  · simp [hd] at h
  · rw [hd, alone] at h
    cases ho : st.ownOf env call with
    | none => rfl
    | some l => simp [ho] at h

/-- The lead whose row the call rebuilds or creates. -/
def target (env : Platform) (st : Store) (call : IngestCall) : Nat :=
  match st.decision env call with
  | .join existing _ => existing.id
  | .refresh own => own.id
  | .found => st.leads.next

/-- The lead the record belongs to once the call has linked it: a pair that is linked already
is not claimed. -/
def attached (env : Platform) (st : Store) (call : IngestCall) : Option Nat :=
  let current := (st.recordOf env call).bind SourceRecord.leadId
  let claimed (leadId : Nat) : Option Nat :=
    if (LeadRepository.linkBetween st leadId (st.recordId env call)).isSome then current
    else some leadId
  match st.decision env call with
  | .join existing _ => claimed existing.id
  | .refresh _ => current
  | .found => claimed st.leads.next

theorem recordOf_some {r : SourceRecord} (h : st.recordOf env call = some r) :
    r ∈ st.records ∧ r.sourceId = call.source.id ∧ r.recordKey = call.recordKey env :=
  SourceRecordRepository.byKey_some h

theorem mem_upsertWrite_records {validation : LeadValidation} {r : SourceRecord} :
    r ∈ ((st.upsertWrite env call validation).apply st).records ↔
      r = st.upserted env call validation ∨ (r ∈ st.records ∧ r.id ≠ st.recordId env call) := by
  have hid := upserted_id env st call validation
  unfold upsertWrite
  cases h : st.recordOf env call with
  | none =>
      simp only [Write.apply, Table.mem_put, key_record]
      rw [hid]
  | some record =>
      have hrecord : st.recordId env call = record.id := by simp [recordId, h]
      obtain ⟨hmem, -⟩ := recordOf_some h
      simp only [Write.apply, Table.mem_replace, key_record]
      rw [hid]
      constructor
      · rintro (⟨rfl, -⟩ | hr)
        · exact .inl rfl
        · exact .inr hr
      · rintro (rfl | hr)
        · exact .inl ⟨rfl, record, hmem, hrecord.symm⟩
        · exact .inr hr

theorem next_upsertWrite_records (st : Store) (call : IngestCall) (validation : LeadValidation) :
    ((st.upsertWrite env call validation).apply st).records.next =
      max st.records.next (st.recordId env call + 1) := by
  have hid := upserted_id env st call validation
  unfold upsertWrite
  cases h : st.recordOf env call with
  | none =>
      simp only [Write.apply, Table.next_put, key_record]
      rw [hid]
  | some record =>
      have hrecord : st.recordId env call = record.id := by simp [recordId, h]
      obtain ⟨hmem, -⟩ := recordOf_some h
      have hlt : record.id < st.records.next := Table.key_lt_next hmem
      simp only [Write.apply, Table.next_replace]
      omega

end Store

def SourceRecord.ownedBy (r : SourceRecord) (leadId : Option Nat) : SourceRecord :=
  { r with leadId := leadId }

/-- The lead row a call writes. -/
inductive Lands (st : Store) (call : IngestCall) (validation : LeadValidation) : Lead → Prop
  | rebuilt {lead row : Lead}
      (decided : (∃ result, st.decision env call = .join lead result) ∨
        st.decision env call = .refresh lead)
      (rebuilds : ((st.upsertWrite env call validation).apply st).remerged env call lead
        (st.recordId env call) = .ok row) : Lands st call validation row
  | founded {merged : MergedLead}
      (decided : st.decision env call = .found)
      (merges : merge [⟨call.lead env, Text.ofNat (st.recordId env call), call.priority⟩] =
        some merged) : Lands st call validation (st.founder env merged validation)

structure Settles (st : Store) (call : IngestCall) (validation : LeadValidation) (row : Lead)
    (st' : Store) : Prop where
  validates : validateLead env (call.lead env) = .ok validation
  lands : Lands env st call validation row
  records : ∀ r, r ∈ st'.records ↔
    r = (st.upserted env call validation).ownedBy (st.attached env call) ∨
      (r ∈ st.records ∧ r.id ≠ st.recordId env call)
  nextRecord : st'.records.next = max st.records.next (st.recordId env call + 1)
  leads : ∀ l, l ∈ st'.leads ↔ l = row ∨ (l ∈ st.leads ∧ l.id ≠ row.id)
  nextLead : st'.leads.next = max st.leads.next (row.id + 1)
  merges : ∀ m ∈ st'.merges,
    (∃ m₀ ∈ st.merges, m₀.leadId = m.leadId ∧ m₀.sourceRecordId = m.sourceRecordId) ∨
      (m.sourceRecordId = st.recordId env call ∧ (m.leadId = row.id ∨ ∃ l ∈ st.leads, m.leadId = l.id))
  sources : st'.sources = st.sources
  suppressions : st'.suppressions = st.suppressions
  jobs : st'.jobs = st.jobs
  results : st'.results = st.results

section Links

variable (st : Store) (leadId recordId : Nat) (rule : Text) (confidence : ℚ)
  (needsReview claim : Bool)

private theorem replay_links (v : Store) :
    let v' := Session.replay
      (st.linkWrites leadId recordId rule confidence needsReview claim) v
    v'.leads = v.leads ∧ v'.sources = v.sources ∧ v'.suppressions = v.suppressions ∧
      v'.jobs = v.jobs ∧ v'.results = v.results ∧ v'.records.next = v.records.next ∧
      (claim = false → v'.records = v.records) := by
  unfold Store.linkWrites
  cases LeadRepository.linkBetween st leadId recordId with
  | some existing => exact ⟨rfl, rfl, rfl, rfl, rfl, rfl, fun _ => rfl⟩
  | none =>
      cases claim with
      | false => exact ⟨rfl, rfl, rfl, rfl, rfl, rfl, fun _ => rfl⟩
      | true => exact ⟨rfl, rfl, rfl, rfl, rfl, rfl, nofun⟩

private theorem mem_replay_links_merges {v : Store} {m : LeadMerge}
    (hm : m ∈ (Session.replay
      (st.linkWrites leadId recordId rule confidence needsReview claim) v).merges) :
    (∃ m₀ ∈ v.merges, m₀.leadId = m.leadId ∧ m₀.sourceRecordId = m.sourceRecordId) ∨
      (m.sourceRecordId = recordId ∧ m.leadId = leadId) := by
  unfold Store.linkWrites at hm
  cases hl : LeadRepository.linkBetween st leadId recordId with
  | some existing =>
      obtain ⟨-, hlead, hrecord⟩ := LeadRepository.linkBetween_some hl
      simp only [hl] at hm
      rcases Table.mem_replace.mp hm with ⟨rfl, -⟩ | ⟨hm, -⟩
      · exact .inr ⟨hrecord, hlead⟩
      · exact .inl ⟨m, hm, rfl, rfl⟩
  | none =>
      simp only [hl] at hm
      have hput : m ∈ v.merges.put
          ⟨st.merges.next, leadId, recordId, rule, confidence, needsReview⟩ := by
        cases claim <;> exact hm
      rcases Table.mem_put.mp hput with rfl | ⟨hm, -⟩
      · exact .inr ⟨rfl, rfl⟩
      · exact .inl ⟨m, hm, rfl, rfl⟩

private theorem mem_replay_links_records {v : Store} {current : SourceRecord}
    {others : SourceRecord → Prop} (hid : current.id = recordId)
    (hothers : ∀ r, others r → r.id ≠ recordId)
    (hv : ∀ r, r ∈ v.records ↔ r = current ∨ others r) (r : SourceRecord) :
    r ∈ (Session.replay
        (st.linkWrites leadId recordId rule confidence needsReview true) v).records ↔
      r = current.ownedBy
        (if (LeadRepository.linkBetween st leadId recordId).isSome then current.leadId
          else some leadId) ∨ others r := by
  unfold Store.linkWrites
  cases hl : LeadRepository.linkBetween st leadId recordId with
  | some existing => exact hv r
  | none =>
      have hclaim : r ∈ v.records.update (fun r => r.id == recordId)
          (fun r => { r with leadId := some leadId }) (fun _ => rfl) ↔
          r = current.ownedBy (some leadId) ∨ others r := by
        rw [Table.mem_update]
        constructor
        · rintro ⟨a, ha, rfl⟩
          rcases (hv a).mp ha with rfl | ho
          · simp [hid, SourceRecord.ownedBy]
          · have hne := hothers a ho
            simp only [beq_iff_eq, hne, if_false]
            exact .inr ho
        · rintro (rfl | ho)
          · exact ⟨current, (hv current).mpr (.inl rfl), by simp [hid, SourceRecord.ownedBy]⟩
          · exact ⟨r, (hv r).mpr (.inr ho), by simp [hothers r ho]⟩
      exact hclaim

end Links

section Settlement

variable {env} {st : Store} {call : IngestCall} {validation : LeadValidation}

theorem Lands.lead {row : Lead} (h : Lands env st call validation row) :
    row.id = st.target env call ∧
      ((∃ lead ∈ st.leads, lead.id = row.id) ∨ (st.decision env call = .found ∧
        row.id = st.leads.next)) := by
  cases h with
  | rebuilt decided rebuilds =>
      obtain ⟨merged, graded, -, -, rfl⟩ := (Store.remerged_ok env _ _).mp rebuilds
      rcases decided with ⟨result, hd⟩ | hd
      · have hmem := (Store.bestOf_some (Store.decision_join hd).1).1
        exact ⟨by simp [Store.target, hd, LeadRepository.applyMerged], .inl ⟨_, hmem, rfl⟩⟩
      · have hmem := (Store.ownOf_some (Store.decision_refresh hd)).1
        exact ⟨by simp [Store.target, hd, LeadRepository.applyMerged], .inl ⟨_, hmem, rfl⟩⟩
  | founded decided merges =>
      exact ⟨by simp [Store.target, decided, Store.founder, LeadRepository.applyMerged,
        LeadRepository.blank], .inr ⟨decided, rfl⟩⟩

/-- The store once the record and the lead are written, before anything is linked. -/
private structure Stored (env : Platform) (st : Store) (call : IngestCall) (validation : LeadValidation)
    (row : Lead) (v : Store) : Prop where
  validates : validateLead env (call.lead env) = .ok validation
  lands : Lands env st call validation row
  records : ∀ r, r ∈ v.records ↔
    r = st.upserted env call validation ∨ (r ∈ st.records ∧ r.id ≠ st.recordId env call)
  nextRecord : v.records.next = max st.records.next (st.recordId env call + 1)
  leads : ∀ l, l ∈ v.leads ↔ l = row ∨ (l ∈ st.leads ∧ l.id ≠ row.id)
  nextLead : v.leads.next = max st.leads.next (row.id + 1)
  merges : v.merges = st.merges
  sources : v.sources = st.sources
  suppressions : v.suppressions = st.suppressions
  jobs : v.jobs = st.jobs
  results : v.results = st.results

private theorem Stored.kept {row : Lead} {v : Store} (h : Stored env st call validation row v)
    (hkept : st.attached env call = (st.recordOf env call).bind SourceRecord.leadId) :
    Settles env st call validation row v where
  validates := h.validates
  lands := h.lands
  records := by
    have hsame : (st.upserted env call validation).ownedBy (st.attached env call) =
        st.upserted env call validation := by
      rw [hkept, ← upserted_leadId env st call validation]
      rfl
    rw [hsame]
    exact h.records
  nextRecord := h.nextRecord
  leads := h.leads
  nextLead := h.nextLead
  merges := fun m hm => .inl ⟨m, h.merges ▸ hm, rfl, rfl⟩
  sources := h.sources
  suppressions := h.suppressions
  jobs := h.jobs
  results := h.results

private theorem Stored.claimed {row : Lead} {v : Store} {rule : Text} {confidence : ℚ}
    (h : Stored env st call validation row v)
    (hclaimed : st.attached env call =
      if (LeadRepository.linkBetween st row.id (st.recordId env call)).isSome then
        (st.recordOf env call).bind SourceRecord.leadId
      else some row.id) :
    Settles env st call validation row (Session.replay
      (st.linkWrites row.id (st.recordId env call) rule confidence false true) v) := by
  obtain ⟨hl, hso, hsu, hj, hre, hn, -⟩ := replay_links st row.id (st.recordId env call) rule
    confidence false true v
  refine ⟨h.validates, h.lands, fun r => ?_, hn.trans h.nextRecord, fun l => ?_,
    hl ▸ h.nextLead, fun m hm => ?_, hso.trans h.sources, hsu.trans h.suppressions,
    hj.trans h.jobs, hre.trans h.results⟩
  · rw [hclaimed, ← upserted_leadId env st call validation]
    exact mem_replay_links_records st row.id (st.recordId env call) rule confidence false
      (upserted_id env st call validation) (fun _ ho => ho.2) h.records r
  · rw [hl]
    exact h.leads l
  · rcases mem_replay_links_merges st row.id _ _ _ _ _ hm with ⟨m₀, h₀, hsame⟩ | ⟨hr, hlead⟩
    · exact .inl ⟨m₀, h.merges ▸ h₀, hsame⟩
    · exact .inr ⟨hr, .inl hlead⟩

private theorem upserted_stored (hv : validateLead env (call.lead env) = .ok validation)
    {row : Lead} (hlands : Lands env st call validation row) {w : Write}
    (hw : w = .updateLead row ∧ (∃ lead ∈ st.leads, lead.id = row.id) ∨
      w = .insertLead row ∧ row.id = st.leads.next) :
    Stored env st call validation row
      (w.apply ((st.upsertWrite env call validation).apply st)) := by
  obtain ⟨v, hstored⟩ : ∃ v, v = (st.upsertWrite env call validation).apply st := ⟨_, rfl⟩
  have hrecords : ∀ r, r ∈ v.records ↔ r = st.upserted env call validation ∨
      (r ∈ st.records ∧ r.id ≠ st.recordId env call) := by
    rw [hstored]
    exact fun r => Store.mem_upsertWrite_records
  have hnext : v.records.next = max st.records.next (st.recordId env call + 1) := by
    rw [hstored]
    exact Store.next_upsertWrite_records st call validation
  obtain ⟨hleads, hmerges, hsources, hsuppressions, hjobs, hresults⟩ :
      v.leads = st.leads ∧ v.merges = st.merges ∧ v.sources = st.sources ∧
        v.suppressions = st.suppressions ∧ v.jobs = st.jobs ∧ v.results = st.results := by
    rw [hstored, Store.upsertWrite]
    cases st.recordOf env call <;> exact ⟨rfl, rfl, rfl, rfl, rfl, rfl⟩
  rw [← hstored]
  rcases hw with ⟨rfl, lead, hmem, hid⟩ | ⟨rfl, hid⟩
  · refine ⟨hv, hlands, hrecords, hnext, fun l => ?_, ?_, hmerges, hsources, hsuppressions,
      hjobs, hresults⟩
    · change l ∈ v.leads.replace row ↔ _
      rw [hleads, Table.mem_replace]
      constructor
      · rintro (⟨rfl, -⟩ | h)
        · exact .inl rfl
        · exact .inr h
      · rintro (rfl | h)
        · exact .inl ⟨rfl, lead, hmem, hid⟩
        · exact .inr h
    · change v.leads.next = _
      have hlt : lead.id < st.leads.next := Table.key_lt_next hmem
      rw [hleads]
      omega
  · refine ⟨hv, hlands, hrecords, hnext, fun l => ?_, ?_, hmerges, hsources, hsuppressions,
      hjobs, hresults⟩
    · change l ∈ v.leads.put row ↔ _
      rw [hleads, Table.mem_put]
      rfl
    · change (v.leads.put row).next = _
      rw [hleads, Table.next_put]
      rfl

private theorem Places.settles {ws : List Write} (hp : Places env st call validation ws)
    (hv : validateLead env (call.lead env) = .ok validation) :
    ∃ row, Settles env st call validation row
      (Session.replay (st.upsertWrite env call validation :: ws) st) := by
  cases hp with
  | @join existing row result decided rebuilds =>
      have hlands : Lands env st call validation row := .rebuilt (.inl ⟨result, decided⟩) rebuilds
      have hmem := (Store.bestOf_some (Store.decision_join decided).1).1
      have hrow : existing.id = row.id := by
        obtain ⟨merged, graded, -, -, rfl⟩ := (Store.remerged_ok env _ _).mp rebuilds
        rfl
      rw [hrow]
      refine ⟨row, (upserted_stored hv hlands (.inl ⟨rfl, existing, hmem, hrow⟩)).claimed ?_⟩
      simp only [Store.attached, decided, hrow]
  | @refresh own row decided rebuilds =>
      have hlands : Lands env st call validation row := .rebuilt (.inr decided) rebuilds
      have hmem := (Store.ownOf_some (Store.decision_refresh decided)).1
      have hrow : own.id = row.id := by
        obtain ⟨merged, graded, -, -, rfl⟩ := (Store.remerged_ok env _ _).mp rebuilds
        rfl
      refine ⟨row, (upserted_stored hv hlands (.inl ⟨rfl, own, hmem, hrow⟩)).kept ?_⟩
      simp only [Store.attached, decided]
  | @found merged decided merges =>
      have hlands : Lands env st call validation (st.founder env merged validation) :=
        .founded decided merges
      refine ⟨_, (upserted_stored hv hlands (.inr ⟨rfl, rfl⟩)).claimed ?_⟩
      simp only [Store.attached, decided]
      rfl

private theorem Settles.flagged {row : Lead} {v : Store}
    (h : Settles env st call validation row v) :
    Settles env st call validation row
      (Session.replay (v.flagWrites (st.bestOf env call) (st.recordId env call)) v) := by
  unfold Store.flagWrites
  cases hb : st.bestOf env call with
  | none => exact h
  | some best =>
      obtain ⟨existing, result⟩ := best
      by_cases ha : result.autoMerge = true
      · simp only [ha, if_true]
        exact h
      · simp only [ha, Bool.false_eq_true, if_false]
        obtain ⟨hl, hso, hsu, hj, hre, -, hrecords⟩ := replay_links v existing.id
          (st.recordId env call) result.rule.value result.confidence true false v
        have hkept := hrecords rfl
        refine ⟨h.validates, h.lands, fun r => ?_, hkept ▸ h.nextRecord, fun l => ?_,
          hl ▸ h.nextLead, fun m hm => ?_, hso.trans h.sources, hsu.trans h.suppressions,
          hj.trans h.jobs, hre.trans h.results⟩
        · rw [hkept]
          exact h.records r
        · rw [hl]
          exact h.leads l
        · rcases mem_replay_links_merges v existing.id _ _ _ _ _ hm with
            ⟨m₀, h₀, hlead, hrecord⟩ | ⟨hrecord, hlead⟩
          · have hold := h.merges m₀ h₀
            rwa [hlead, hrecord] at hold
          · exact .inr ⟨hrecord, .inr ⟨existing, (Store.bestOf_some hb).1, hlead⟩⟩

theorem Ingests.settles {ws : List Write} (hi : Ingests env st call ws)
    (hopen : call.blocked env = false) :
    ∃ validation row, Settles env st call validation row (Session.replay ws st) := by
  cases hi with
  | suppressed blocked => simp [blocked] at hopen
  | @placed validation placed flags unblocked validates places flagged =>
      obtain ⟨row, hrow⟩ := places.settles validates
      refine ⟨validation, row, ?_⟩
      rw [flagged, ← List.cons_append, Session.replay_append]
      exact hrow.flagged

theorem Settles.lead_survives {row : Lead} {st' : Store}
    (hs : Settles env st call validation row st') {l : Lead}
    (hl : l ∈ st.leads) : ∃ l' ∈ st'.leads, l'.id = l.id := by
  by_cases hid : l.id = row.id
  · exact ⟨row, (hs.leads row).mpr (.inl rfl), hid.symm⟩
  · exact ⟨l, (hs.leads l).mpr (.inr ⟨hl, hid⟩), rfl⟩

end Settlement

end LeadPipe
