import LeadPipe.Pipeline.Derived
import LeadPipe.Pipeline.Ownership

/-!
# Purging by age

`purge_older_than` deletes leads by the instant they were last seen, and their records go with
them. A lead is seen again whenever it is rebuilt, so no record is fresher than its lead unless
a record comes back, merges into a lead it is linked to already, and stays with its own.
-/

namespace LeadPipe

open Framework

variable (env : Platform)

namespace Store

variable {st : Store} {r : SourceRecord}

private theorem mem_deleteLeads_records (leads : List Lead) :
    r ∈ (leads.foldl (fun st l => st.deleteLead l.id) st).records ↔
      r ∈ st.records ∧ ∀ l ∈ leads, r.leadId ≠ some l.id := by
  induction leads generalizing st with
  | nil => simp
  | cons l leads ih =>
      rw [List.foldl_cons, ih, List.forall_mem_cons, ← and_assoc]
      refine and_congr_left fun _ => ?_
      simp [deleteLead]

theorem mem_purgeOlderThan_records {cutoff : Instant} :
    r ∈ (st.purgeOlderThan cutoff).records ↔
      r ∈ st.records ∧ ∀ l ∈ st.leads, l.lastSeenAt < cutoff → r.leadId ≠ some l.id := by
  unfold purgeOlderThan
  rw [mem_deleteLeads_records]
  simp only [Table.mem_select, decide_eq_true_eq, and_imp]

/-- A purge deletes no record that was seen since the cutoff. -/
def RetainsFresh (st : Store) (cutoff : Instant) : Prop :=
  ∀ r ∈ st.records, cutoff ≤ r.collectedAt → r ∈ (st.purgeOlderThan cutoff).records

instance (st : Store) (cutoff : Instant) : Decidable (st.RetainsFresh cutoff) :=
  have (r : SourceRecord) : Decidable (r ∈ (st.purgeOlderThan cutoff).records) :=
    inferInstanceAs (Decidable (r ∈ (st.purgeOlderThan cutoff).records.rows))
  inferInstanceAs (Decidable (∀ r ∈ st.records, _ → _))

/-- No record is fresher than the lead it belongs to. -/
def LeadsSeen (st : Store) : Prop :=
  ∀ r ∈ st.records, ∀ l ∈ st.leads, r.leadId = some l.id → r.collectedAt ≤ l.lastSeenAt

theorem retainsFresh_iff : (∀ cutoff, st.RetainsFresh cutoff) ↔ st.LeadsSeen := by
  constructor
  · intro h r hr l hl hlead
    by_contra hold
    have hkept := (mem_purgeOlderThan_records.mp (h r.collectedAt r hr le_rfl)).2
    exact hkept l hl (not_le.mp hold) hlead
  · intro h cutoff r hr hfresh
    refine mem_purgeOlderThan_records.mpr ⟨hr, fun l hl hold hlead => ?_⟩
    exact absurd (hfresh.trans (h r hr l hl hlead)) (not_le.mpr hold)

end Store

private theorem le_foldl_max {l : List Instant} {a b : Instant} (h : b = a ∨ b ∈ l) :
    b ≤ l.foldl max a := by
  induction l generalizing a b with
  | nil =>
      rcases h with rfl | h
      · exact le_rfl
      · cases h
  | cons x l ih =>
      rw [List.foldl_cons]
      rcases h with rfl | h
      · exact (le_max_left b x).trans (ih (.inl rfl))
      · rcases List.mem_cons.mp h with rfl | h
        · exact (le_max_right a b).trans (ih (.inl rfl))
        · exact ih (.inr h)

theorem merge_collectedAt {cs : List Candidate} {merged : MergedLead} (h : merge cs = some merged)
    {c : Candidate} (hc : c ∈ cs) : c.lead.collectedAt ≤ merged.lead.collectedAt := by
  obtain ⟨top, -, rfl⟩ := merge_some h
  exact le_foldl_max (.inr (List.mem_map.mpr ⟨c, hc, rfl⟩))

namespace Store

/-- The record of the call merges into a lead it is linked to already, and so stays with a lead
of its own that was last seen before. -/
def leavesStale (st : Store) (call : IngestCall) : Bool :=
  !call.blocked env &&
    match st.decision env call with
    | .join existing _ =>
        (LeadRepository.linkBetween st existing.id (st.recordId env call)).isSome &&
          (st.ownOf env call).any fun own => own.lastSeenAt < call.raw.collectedAt
    | _ => false

variable {env} {st st' : Store} {call : IngestCall} {validation : LeadValidation} {row : Lead}

/-- The lead a call writes was seen no earlier than the record and than what it owns besides. -/
private theorem row_seen (h : Sound env st) (hs : Settles env st call validation row st') :
    call.raw.collectedAt ≤ row.lastSeenAt ∧ ∀ r ∈ st.records, r.id ≠ st.recordId env call →
      r.leadId = some row.id → r.collectedAt ≤ row.lastSeenAt := by
  cases hs.lands with
  | @rebuilt lead row decided rebuilds =>
      obtain ⟨merged, graded, hmerge, -, rfl⟩ := (remerged_ok env _ _).mp rebuilds
      have hseen {c : Candidate} (hc : c ∈ ((st.upsertWrite env call validation).apply st).rebuilt
          env call lead.id (st.recordId env call)) :
          c.lead.collectedAt ≤ (LeadRepository.applyMerged env lead merged graded).lastSeenAt :=
        (merge_collectedAt hmerge hc).trans (le_max_right _ _)
      refine ⟨hseen (List.mem_append_right _ (List.mem_singleton.mpr rfl)), ?_⟩
      intro r hr hne hlead
      obtain ⟨source, hsource, hid⟩ := h.sourced r hr
      have hfind : st.sources.find? r.sourceId = some source :=
        Table.find?_eq_some.mpr ⟨hsource, hid⟩
      have hcandidate : LeadRepository.toCandidate st r =
          some ⟨r.toNormalized source.name, Text.ofNat r.id, source.priority⟩ := by
        simp only [LeadRepository.toCandidate, hfind, Option.map_some]
      refine hseen (c := ⟨r.toNormalized source.name, Text.ofNat r.id, source.priority⟩)
        (List.mem_append_left _ (List.mem_filter.mpr ⟨?_, ?_⟩))
      · rw [LeadRepository.mem_candidatesFor, upsertWrite_toCandidate]
        exact ⟨r, mem_upsertWrite_records.mpr (.inr ⟨hr, hne⟩), hlead, hcandidate⟩
      · rw [bne_iff_ne]
        intro horigin
        exact hne (originKey_ofNat_injective (congrArg originKey horigin))
  | @founded merged decided merges =>
      refine ⟨(merge_collectedAt merges (List.mem_singleton.mpr rfl)).trans (le_max_right _ _), ?_⟩
      intro r hr _ hlead
      obtain ⟨l, hl, hlead'⟩ := h.owned r hr
      have hlt : l.id < st.leads.next := Table.key_lt_next hl
      have hid : l.id = st.leads.next := Option.some.inj (hlead'.symm.trans hlead)
      omega

variable (h : Sound env st) (hopen : call.blocked env = false)
  (hs : Settles env st call validation row st')
include h hopen hs

/-- A record that ends up with a lead the call does not write had that lead, and merged into
another one it was linked to. -/
private theorem attached_elsewhere {l : Lead} (hl : l ∈ st.leads) (hne : l.id ≠ row.id)
    (hattached : st.attached env call = some l.id) :
    st.ownOf env call = some l ∧ st.leavesStale env call = decide
      (l.lastSeenAt < call.raw.collectedAt) := by
  have htarget := hs.lands.lead.1
  have hfind : st.leads.find? l.id = some l := Table.find?_eq_some.mpr ⟨hl, rfl⟩
  have hown (hcurrent : (st.recordOf env call).bind SourceRecord.leadId = some l.id) :
      st.ownOf env call = some l := by
    simp [ownOf, hcurrent, hfind]
  cases hd : st.decision env call with
  | join existing result =>
      simp only [attached, hd] at hattached
      split at hattached
      · rename_i hlinked
        refine ⟨hown hattached, ?_⟩
        simp [leavesStale, hopen, hd, hlinked, hown hattached]
      · have hid : existing.id = l.id := Option.some.inj hattached
        simp only [target, hd] at htarget
        exact absurd (hid.symm.trans htarget.symm) hne
  | refresh own =>
      simp only [attached, hd] at hattached
      obtain ⟨-, hcurrent⟩ := ownOf_some (decision_refresh hd)
      have hid : own.id = l.id := Option.some.inj (hcurrent.symm.trans hattached)
      simp only [target, hd] at htarget
      exact absurd (hid.symm.trans htarget.symm) hne
  | found =>
      have hcurrent : (st.recordOf env call).bind SourceRecord.leadId = none := by
        rw [ownOf_none h (decision_found hd), Option.bind_none]
      simp only [attached, hd, hcurrent] at hattached
      split at hattached
      · cases hattached
      · have hid : st.leads.next = l.id := Option.some.inj hattached
        have hlt : l.id < st.leads.next := Table.key_lt_next hl
        omega

/-- A call keeps every lead as fresh as its records exactly when it leaves none stale. -/
theorem LeadsSeen.settles_iff (hseen : st.LeadsSeen) :
    st'.LeadsSeen ↔ st.leavesStale env call = false := by
  obtain ⟨hrow, hothers⟩ := row_seen h hs
  constructor
  · intro hseen'
    cases hd : st.decision env call with
    | refresh own => simp [leavesStale, hd]
    | found => simp [leavesStale, hd]
    | join existing result =>
        by_cases hlinked :
            (LeadRepository.linkBetween st existing.id (st.recordId env call)).isSome = true
        · cases hown : st.ownOf env call with
          | none => simp [leavesStale, hd, hown]
          | some own =>
              obtain ⟨hmem, hcurrent⟩ := ownOf_some hown
              have hother : (st.ownOf env call).map Lead.id ≠ some existing.id :=
                (bestOf_some (decision_join hd).1).2.1
              have hne : own.id ≠ row.id := by
                rw [hs.lands.lead.1]
                intro hid
                exact hother (by rw [hown, Option.map_some, hid]; simp [target, hd])
              have hattached : st.attached env call = some own.id := by
                simp [attached, hd, hlinked, hcurrent]
              have hfresh := hseen' _ ((hs.records _).mpr (.inl rfl)) own
                ((hs.leads own).mpr (.inr ⟨hmem, hne⟩)) hattached
              rw [(attached_elsewhere h hopen hs hmem hne hattached).2, decide_eq_false_iff_not,
                not_lt]
              exact hfresh
        · simp [leavesStale, hd, hlinked]
  · intro hfresh r hr l hl hlead
    rcases (hs.records r).mp hr with rfl | ⟨hr, hid⟩ <;>
      rcases (hs.leads l).mp hl with rfl | ⟨hl, hne⟩
    · exact hrow
    · rw [(attached_elsewhere h hopen hs hl hne hlead).2, decide_eq_false_iff_not, not_lt] at hfresh
      exact hfresh
    · exact hothers r hr hid hlead
    · exact hseen r hr l hl hlead

end Store

namespace Store

/-- No call of a run of completing calls leaves a lead stale. -/
def leavesNoneStale (env : Platform) : Store → List IngestCall → Bool
  | _, [] => true
  | st, call :: calls =>
      (st.ingested env call).all fun st' =>
        !st.leavesStale env call && leavesNoneStale env st' calls

variable {env} {st : Store}

theorem LeadsSeen.collected_iff {calls : List IngestCall} (h : Sound env st)
    (hseen : st.LeadsSeen) (hcalls : ∀ call ∈ calls, call.source ∈ st.sources) :
    (∀ done, done <+: calls → ∀ st', st.collected env done = some st' → st'.LeadsSeen) ↔
      leavesNoneStale env st calls = true := by
  induction calls generalizing st with
  | nil =>
      refine ⟨fun _ => rfl, fun _ done hdone st' hrun => ?_⟩
      obtain rfl : done = [] := List.prefix_nil.mp hdone
      obtain rfl : st = st' := Option.some.inj hrun
      exact hseen
  | cons call calls ih =>
      obtain ⟨hcall, hcalls⟩ := List.forall_mem_cons.mp hcalls
      have hsplit : (∀ done, done <+: call :: calls → ∀ st', st.collected env done = some st' →
          st'.LeadsSeen) ↔ ∀ done, done <+: calls → ∀ st', st.collected env (call :: done) =
            some st' → st'.LeadsSeen := by
        constructor
        · intro hall done hdone
          exact hall (call :: done) ((List.prefix_cons_inj call).mpr hdone)
        · intro hall done hdone st' hrun
          rcases List.prefix_cons_iff.mp hdone with rfl | ⟨rest, rfl, hrest⟩
          · obtain rfl : st = st' := Option.some.inj hrun
            exact hseen
          · exact hall rest hrest st' hrun
      rw [hsplit]
      unfold leavesNoneStale
      cases hstep : st.ingested env call with
      | none => simp [Store.collected, hstep]
      | some st₁ =>
          simp only [Store.collected, hstep, Option.bind_some, Option.all_some, Bool.and_eq_true,
            Bool.not_eq_true']
          have hsound := h.ingested hcall hstep
          rcases ingested_cases hstep with ⟨hblocked, rfl⟩ | ⟨hopen, validation, row, hs⟩
          · have hfresh : st₁.leavesStale env call = false := by simp [leavesStale, hblocked]
            rw [ih h hseen hcalls]
            simp [hfresh]
          · have hiff := hseen.settles_iff h hopen hs
            by_cases hfresh : st.leavesStale env call = false
            · rw [ih hsound (hiff.mpr hfresh) (by rwa [hs.sources])]
              simp [hfresh]
            · constructor
              · intro hall
                exact absurd (hiff.mp (hall [] List.nil_prefix st₁ rfl)) hfresh
              · rintro ⟨hkept, -⟩
                exact absurd hkept hfresh

end Store

/-- In a run of completing calls from empty tables no purge ever deletes a record seen since its
cutoff, in any state the run passes through, exactly when no call leaves a lead stale. -/
theorem retention_keeps_fresh_records_iff (env : Platform) {sources : Table Source}
    {calls : List IngestCall} (hcalls : ∀ call ∈ calls, call.source ∈ sources) :
    (∀ done, done <+: calls → ∀ st, (Store.ofSources sources).collected env done = some st →
      ∀ cutoff, st.RetainsFresh cutoff) ↔
      Store.leavesNoneStale env (.ofSources sources) calls = true := by
  have hempty : (Store.ofSources sources).LeadsSeen :=
    fun r hr => absurd hr (Table.not_mem_empty r)
  rw [← hempty.collected_iff (Store.Sound.ofSources env sources) hcalls]
  simp only [Store.retainsFresh_iff]

/-- A record is put up for review against the lead of another one and comes back later, with an
address of its own or of the other. -/
def reviewedAndBack (email : String) : List IngestCall :=
  [.plain .csv 1 [("external_id", "1"), ("company_name", "Acme"), ("city", "Oulu"),
      ("email", "a@x.fi")],
    .plain .csv 2 [("external_id", "2"), ("company_name", "Acme"), ("city", "Oulu"),
      ("email", "b@x.fi")],
    recollected email]

private theorem reviewedAndBack_sources (email : String) :
    ∀ call ∈ reviewedAndBack email, call.source ∈ Table.empty.put Source.csv := by
  intro call hcall
  simp only [reviewedAndBack, List.mem_cons, List.not_mem_nil, or_false] at hcall
  rcases hcall with rfl | rfl | rfl <;> exact Table.mem_put.mpr (.inl rfl)

theorem retention_keeps_fresh_records_refreshed :
    ((Store.ofSources (Table.empty.put .csv)).collected .ascii
        (reviewedAndBack "c@x.fi")).isSome = true ∧
      ∀ done, done <+: reviewedAndBack "c@x.fi" → ∀ st,
        (Store.ofSources (Table.empty.put .csv)).collected .ascii done = some st →
          ∀ cutoff, st.RetainsFresh cutoff :=
  ⟨by decide +kernel,
    (retention_keeps_fresh_records_iff .ascii (reviewedAndBack_sources _)).mpr (by decide +kernel)⟩

/-- The record comes back at the instant 3 and goes with its lead, last seen at the instant 2. -/
theorem retention_deletes_fresh_record :
    ∃ st, (Store.ofSources (Table.empty.put .csv)).collected .ascii (reviewedAndBack "a@x.fi") =
      some st ∧ ¬st.RetainsFresh 3 := by
  have hlost : ((Store.ofSources (Table.empty.put .csv)).collected .ascii
      (reviewedAndBack "a@x.fi")).any (fun st => !decide (st.RetainsFresh 3)) = true := by
    decide +kernel
  obtain ⟨st, hrun, hlost⟩ := (Option.any_eq_true _ _).mp hlost
  exact ⟨st, hrun, by simpa using hlost⟩

end LeadPipe
