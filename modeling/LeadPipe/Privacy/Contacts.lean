import LeadPipe.Pipeline.Integrity
import LeadPipe.Pipeline.Statements

/-!
# Where addresses and domains come from

The email and the domain a call writes, into its record or into a lead, are those of the
incoming record or of a record stored already. So a set of forbidden values that neither the
tables nor the record carry is not carried by anything the call writes.
-/

namespace LeadPipe

open Framework

variable (env : Platform)

/-- What a suppression of the given kind is compared with. -/
def LeadPayload.contact (p : LeadPayload) : SuppressionKind → Option Text
  | .email => p.email
  | .domain => p.websiteDomain

/-- A set of forbidden values of each kind. -/
abbrev Forbidden := SuppressionKind → Text → Prop

def LeadPayload.Free (bad : Forbidden) (p : LeadPayload) : Prop :=
  ∀ kind v, p.contact kind = some v → ¬ bad kind v

def Write.payload : Write → Option LeadPayload
  | insertRecord r | updateRecord r => some r.normalized
  | insertLead l | updateLead l => some l.toLeadPayload
  | _ => none

def Write.Free (bad : Forbidden) (w : Write) : Prop := ∀ p, w.payload = some p → p.Free bad

/-- No stored record and no lead carries a forbidden value. -/
structure Store.Free (bad : Forbidden) (st : Store) : Prop where
  records : ∀ r ∈ st.records, r.normalized.Free bad
  leads : ∀ l ∈ st.leads, l.toLeadPayload.Free bad

variable {env} {bad : Forbidden}

theorem Write.OfRuns.free {w : Write} (h : w.OfRuns) : w.Free bad := by
  intro p hp
  cases w <;> first | exact h.elim | cases hp

theorem Write.apply_suppressions (w : Write) (st : Store) :
    (w.apply st).suppressions = st.suppressions := by
  cases w <;> rfl

theorem merge_contact {cs : List Candidate} {merged : MergedLead} (h : merge cs = some merged)
    {kind : SuppressionKind} {v : Text} (hv : merged.lead.contact kind = some v) :
    ∃ c ∈ cs, c.lead.contact kind = some v := by
  obtain ⟨top, -, rfl⟩ := merge_some h
  cases kind with
  | email =>
      obtain ⟨c, hc, hcv⟩ := Option.bind_eq_some_iff.mp hv
      exact ⟨c, mem_ranked.mp (mem_of_firstWith hc).1, hcv⟩
  | domain =>
      obtain ⟨c, hc, hcv⟩ := Option.bind_eq_some_iff.mp hv
      exact ⟨c, mem_ranked.mp (mem_of_firstWith hc).1, hcv⟩

theorem merge_free {cs : List Candidate} {merged : MergedLead} (h : merge cs = some merged)
    (hcs : ∀ c ∈ cs, c.lead.Free bad) : merged.lead.Free bad := by
  intro kind v hv
  obtain ⟨c, hc, hcv⟩ := merge_contact h hv
  exact hcs c hc kind v hcv

namespace Store

variable {st : Store} {call : IngestCall} {validation : LeadValidation}

theorem Free.apply (h : st.Free bad) {w : Write} (hw : w.Free bad) : (w.apply st).Free bad := by
  have hrecord (row : SourceRecord) (hrow : row.normalized.Free bad) (r : SourceRecord)
      (hr : r = row ∨ r ∈ st.records) : r.normalized.Free bad := by
    rcases hr with rfl | hr
    · exact hrow
    · exact h.records r hr
  have hlead (row : Lead) (hrow : row.toLeadPayload.Free bad) (l : Lead)
      (hl : l = row ∨ l ∈ st.leads) : l.toLeadPayload.Free bad := by
    rcases hl with rfl | hl
    · exact hrow
    · exact h.leads l hl
  cases w with
  | insertRecord row =>
      refine ⟨fun r hr => ?_, h.leads⟩
      exact hrecord row (hw _ rfl) r ((Table.mem_put.mp hr).imp_right And.left)
  | updateRecord row =>
      refine ⟨fun r hr => ?_, h.leads⟩
      exact hrecord row (hw _ rfl) r ((Table.mem_replace.mp hr).imp And.left And.left)
  | claimRecord recordId leadId =>
      refine ⟨fun r hr => ?_, h.leads⟩
      simp only [Write.apply, Table.mem_update] at hr
      obtain ⟨a, ha, rfl⟩ := hr
      have hsame : (if a.id == recordId then { a with leadId := some leadId } else a).normalized =
          a.normalized := by split <;> rfl
      rw [hsame]
      exact h.records a ha
  | insertLead row =>
      refine ⟨h.records, fun l hl => ?_⟩
      exact hlead row (hw _ rfl) l ((Table.mem_put.mp hl).imp_right And.left)
  | updateLead row =>
      refine ⟨h.records, fun l hl => ?_⟩
      exact hlead row (hw _ rfl) l ((Table.mem_replace.mp hl).imp And.left And.left)
  | _ => exact ⟨h.records, h.leads⟩

theorem Free.replay (h : st.Free bad) {ws : List Write} (hws : ∀ w ∈ ws, w.Free bad) :
    (Session.replay ws st).Free bad := by
  induction ws generalizing st with
  | nil => exact h
  | cons w ws ih =>
      have hfirst : (w.apply st).Free bad := h.apply (hws w List.mem_cons_self)
      exact ih hfirst fun w hw => hws w (List.mem_cons_of_mem _ hw)

theorem Free.candidatesFor (h : st.Free bad) (leadId : Nat) :
    ∀ c ∈ LeadRepository.candidatesFor st leadId, c.lead.Free bad := by
  intro c hc
  obtain ⟨r, hr, -, hrc⟩ := LeadRepository.mem_candidatesFor.mp hc
  obtain ⟨source, -, rfl⟩ := LeadRepository.toCandidate_some hrc
  exact h.records r hr

theorem Free.rebuilt (h : st.Free bad) (hcall : (call.lead env).Free bad)
    (leadId recordId : Nat) : ∀ c ∈ st.rebuilt env call leadId recordId, c.lead.Free bad := by
  intro c hc
  rcases List.mem_append.mp hc with hc | hc
  · exact h.candidatesFor leadId c (List.mem_of_mem_filter hc)
  · rw [List.mem_singleton] at hc
    subst hc
    exact hcall

theorem Free.remerged (h : st.Free bad) (hcall : (call.lead env).Free bad) {leadRow row : Lead}
    {recordId : Nat} (hrow : st.remerged env call leadRow recordId = .ok row) :
    row.toLeadPayload.Free bad := by
  obtain ⟨merged, graded, hmerge, -, rfl⟩ := (remerged_ok env st call).mp hrow
  exact merge_free hmerge (h.rebuilt hcall leadRow.id recordId)

theorem upsertWrite_free (hcall : (call.lead env).Free bad) :
    (st.upsertWrite env call validation).Free bad := by
  have hrow : (st.upserted env call validation).normalized.Free bad := hcall
  intro p hp
  unfold upsertWrite at hp
  split at hp
  · cases hp
    exact hrow
  · cases hp
    exact hrow

theorem linkWrites_free {leadId recordId : Nat} {rule : Text} {confidence : ℚ}
    {needsReview claim : Bool} :
    ∀ w ∈ st.linkWrites leadId recordId rule confidence needsReview claim, w.Free bad := by
  intro w hw p hp
  unfold linkWrites at hw
  split at hw
  · rw [List.mem_singleton] at hw
    subst hw
    cases hp
  · rcases List.mem_append.mp hw with hw | hw
    · split at hw
      · rw [List.mem_singleton] at hw
        subst hw
        cases hp
      · cases hw
    · rw [List.mem_singleton] at hw
      subst hw
      cases hp

theorem flagWrites_free {best : Option (Lead × MatchResult)} {recordId : Nat} :
    ∀ w ∈ st.flagWrites best recordId, w.Free bad := by
  intro w hw
  unfold flagWrites at hw
  split at hw
  · split at hw
    · cases hw
    · exact linkWrites_free w hw
  · cases hw

theorem Free.places (h : st.Free bad) (hcall : (call.lead env).Free bad) {ws : List Write}
    (hp : Places env st call validation ws) : ∀ w ∈ ws, w.Free bad := by
  have hstored : ((st.upsertWrite env call validation).apply st).Free bad :=
    h.apply (upsertWrite_free hcall)
  have hrow (row : Lead) (hfree : row.toLeadPayload.Free bad) (w : Write)
      (hw : w.payload = some row.toLeadPayload) : w.Free bad := by
    intro p hp
    rw [hw] at hp
    cases hp
    exact hfree
  intro w hw
  cases hp with
  | join decided rebuilds =>
      rcases List.mem_cons.mp hw with rfl | hw
      · exact hrow _ (hstored.remerged hcall rebuilds) _ rfl
      · exact linkWrites_free w hw
  | refresh decided rebuilds =>
      rw [List.mem_singleton] at hw
      subst hw
      exact hrow _ (hstored.remerged hcall rebuilds) _ rfl
  | @found merged decided merges =>
      rcases List.mem_cons.mp hw with rfl | hw
      · have hshown : merged.lead.Free bad := merge_free merges (by simpa using hcall)
        exact hrow (st.founder env merged validation) hshown _ rfl
      · exact linkWrites_free w hw

end Store

theorem ingest_free {s s' : Session Store Write RunStats} {call : IngestCall}
    {e : Except (Exn PyError) Unit}     (hopen : s.Healthy) (h : s.view.Free bad)
    (hcall : (call.lead env).Free bad ∨ call.blocked env = true)
    (hrun : ingest env call s = (e, s')) :
    ∃ ws, s'.log = s.log ++ ws ∧ ∀ w ∈ ws, w.Free bad := by
  have hnone : ∀ w ∈ ([] : List Write), w.Free bad := by simp
  have hcarried (unblocked : call.blocked env = false) : (call.lead env).Free bad := by
    rcases hcall with hfree | hblocked
    · exact hfree
    · rw [unblocked] at hblocked
      cases hblocked
  cases e with
  | ok a =>
      obtain ⟨ws, hi, -, hlog, -⟩ := ingest_completes env hopen hrun
      refine ⟨ws, hlog, ?_⟩
      cases hi with
      | suppressed => exact hnone
      | placed unblocked validates places flagged =>
          have hfree := hcarried unblocked
          intro w hw
          rcases List.mem_cons.mp hw with rfl | hw
          · exact Store.upsertWrite_free hfree
          · rcases List.mem_append.mp hw with hw | hw
            · exact h.places hfree places w hw
            · rw [flagged] at hw
              exact Store.flagWrites_free w hw
  | error e =>
      obtain ⟨ws, ha, -, hlog, -⟩ := ingest_raises env hopen hrun
      refine ⟨ws, hlog, ?_⟩
      cases ha with
      | ungraded => exact hnone
      | unmerged unblocked =>
          intro w hw
          rw [List.mem_singleton] at hw
          subst hw
          exact Store.upsertWrite_free (hcarried unblocked)

end LeadPipe
