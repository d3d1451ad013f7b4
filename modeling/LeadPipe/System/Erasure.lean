import LeadPipe.Api.Routes
import LeadPipe.Pipeline.Retention
import LeadPipe.System.Operations

/-!
# Leads that are gone

A lead disappears only when it is deleted by its number or purged for its age, and its number is
not used again: from then on no request finds it, and nothing in the tables refers to it.
-/

namespace LeadPipe

open Framework

variable {env : Platform} {st : Store}

namespace Store

/-- The number was handed out, and there is no lead under it. -/
def Erased (leadId : Nat) (st : Store) : Prop := leadId < st.leads.next ∧ ¬st.leads.Has leadId

variable {leadId : Nat}

theorem Erased.write (h : st.Erased leadId) {w : Write} (hw : st.Admits w) :
    (w.apply st).Erased leadId := by
  cases w with
  | insertLead r => exact ⟨h.1.trans_le (le_max_left _ _), Table.not_has_put h.2 h.1 hw⟩
  | updateLead r => exact ⟨h.1, Table.not_has_replace h.2 r⟩
  | _ => exact h

theorem Erased.deleteLead (h : st.Erased leadId) (other : Nat) :
    (st.deleteLead other).Erased leadId := by
  refine ⟨h.1, fun hthere => h.2 ?_⟩
  obtain ⟨l, hl, hid⟩ := hthere
  exact ⟨l, (Table.mem_erase.mp hl).1, hid⟩

private theorem mem_deleteLeads (leads : List Lead) {l : Lead} :
    l ∈ (leads.foldl (fun st l => st.deleteLead l.id) st).leads ↔
      l ∈ st.leads ∧ ∀ l' ∈ leads, l.id ≠ l'.id := by
  induction leads generalizing st with
  | nil => simp
  | cons l' leads ih =>
      rw [List.foldl_cons, ih, List.forall_mem_cons, ← and_assoc]
      refine and_congr_left fun _ => ?_
      simp [Store.deleteLead]

theorem mem_purgeOlderThan_leads {cutoff : Instant} {l : Lead} :
    l ∈ (st.purgeOlderThan cutoff).leads ↔ l ∈ st.leads ∧ ¬l.lastSeenAt < cutoff := by
  unfold Store.purgeOlderThan
  rw [mem_deleteLeads]
  refine and_congr_right fun hl => ?_
  simp only [Table.mem_select, decide_eq_true_eq, and_imp]
  constructor
  · intro h hold
    exact h l hl hold rfl
  · intro h l' hl' hold hid
    rw [Table.eq_of_key hl hl' hid] at h
    exact h hold

end Store

namespace Operation

/-- A transaction of its own may write leads, and the two deletions delete them. -/
def ofLeads : Operation → Bool
  | transaction _ _ | deleteLead _ _ | purge _ => true
  | _ => false

theorem leads_step (st : Store) {op : Operation} (h : op.ofLeads = false) :
    (op.step env st).leads = st.leads := by
  cases op with
  | transaction t fault => cases h
  | deleteLead leadId suppressed => cases h
  | purge cutoff => cases h
  | claim worker now locked =>
      simp only [step, Queue.claim]
      split <;> rfl
  | heartbeat jobId now => rfl
  | fail job error now jitter =>
      simp only [step, Queue.fail]
      split <;> rfl
  | recoverStale staleAfter now failedAt => rfl
  | suppress kind value reason =>
      obtain ⟨suppressions, hkeep⟩ := SuppressionRepository.add_keeps env st kind value reason
      simp only [step, hkeep]
  | unsuppress suppressionId => rfl
  | removeValue kind value =>
      exact SuppressionRepository.removeValue_keeps env (P := fun st' => st'.leads = st.leads)
        (fun _ _ hst => hst) rfl kind value

variable (env) in
theorem leads_deleteRoute (st : Store) (leadId : Nat) (suppressed : Bool) :
    ((deleteLeadRoute env st leadId suppressed).getD st).leads = st.leads ∨
      ((deleteLeadRoute env st leadId suppressed).getD st).leads =
        (st.deleteLead leadId).leads := by
  unfold deleteLeadRoute
  cases st.leads.find? leadId with
  | none => exact .inl rfl
  | some lead =>
      refine .inr ?_
      cases suppressed with
      | false => rfl
      | true =>
          obtain ⟨suppressions, hkeep⟩ := SuppressionRepository.addForLead_keeps env st lead.email
            lead.websiteDomain ("lead ".toList ++ Text.ofNat leadId ++ " deleted".toList)
          simp only [Option.map_some, Option.getD_some, if_true, hkeep]
          rfl

theorem removes_lead (hst : st.Consistent) {op : Operation} {lead : Lead} (hlead : lead ∈ st.leads)
    (hgone : ¬(op.step env st).leads.Has lead.id) :
    (∃ suppressed, op = .deleteLead lead.id suppressed) ∨
      ∃ cutoff, op = .purge cutoff ∧ lead.lastSeenAt < cutoff := by
  have hthere : st.leads.Has lead.id := ⟨lead, hlead, rfl⟩
  cases op with
  | transaction t fault =>
      refine absurd ?_ hgone
      obtain ⟨ws, -, hview, hall⟩ := t.writes env hst fault
      have hkept : (Session.replay ws st).Holds (.lead lead.id) :=
        hall.keeps (I := fun st : Store => st.Holds (.lead lead.id))
          (fun _ w hv _ => hv.write w) hthere
      simp only [step]
      rcases t.perform_cases env st fault with hdone | hback
      · rw [hdone, hview]
        exact hkept
      · rw [hback]
        exact hthere
  | deleteLead leadId suppressed =>
      by_cases hid : leadId = lead.id
      · exact .inl ⟨suppressed, by rw [hid]⟩
      · refine absurd ?_ hgone
        simp only [step]
        rcases leads_deleteRoute env st leadId suppressed with hsame | hdeleted
        · rw [hsame]
          exact hthere
        · rw [hdeleted]
          exact ⟨lead, Table.mem_erase.mpr ⟨hlead, by simpa using Ne.symm hid⟩, rfl⟩
  | purge cutoff =>
      refine .inr ⟨cutoff, rfl, not_not.mp fun hfresh => hgone ?_⟩
      exact ⟨lead, Store.mem_purgeOlderThan_leads.mpr ⟨hlead, hfresh⟩, rfl⟩
  | _ =>
      rw [leads_step st rfl] at hgone
      exact absurd hthere hgone

end Operation

namespace Store

variable {leadId : Nat}

theorem Erased.step (hst : st.Consistent) (h : st.Erased leadId) (op : Operation) :
    (op.step env st).Erased leadId := by
  cases op with
  | transaction t fault =>
      obtain ⟨ws, -, hview, hall⟩ := t.writes env hst fault
      change (t.perform env st fault).Erased leadId
      rcases t.perform_cases env st fault with hdone | hback
      · rw [hdone, hview]
        exact hall.keeps (fun _ _ hv hw => hv.write hw) h
      · rw [hback]
        exact ⟨h.1.trans_le (le_max_left _ _), h.2⟩
  | deleteLead other suppressed =>
      exact deleteLeadRoute_keeps env (fun _ other hst => hst.deleteLead other) (fun _ _ hst => hst)
        h other suppressed
  | purge cutoff => exact purge_keeps (fun _ other hst => hst.deleteLead other) h cutoff
  | _ =>
      unfold Erased
      rw [Operation.leads_step st rfl]
      exact h

theorem Erased.run (hst : st.Reached env) (h : st.Erased leadId) (ops : List Operation) :
    (execute (Operation.step env) st ops).Erased leadId :=
  (execute_invariant (I := fun st : Store => st.Reached env ∧ st.Erased leadId) ⟨hst, h⟩
    (fun _ op hv => ⟨hv.1.step op, hv.2.step hv.1.consistent op⟩) ops).2

/-- No request finds the lead, and nothing in the tables refers to it. -/
structure Forgotten (env : Platform) (leadId : Nat) (st : Store) : Prop where
  getLead : ∀ sqlLower snap, snap.store = st → getLead env sqlLower snap leadId = none
  listed : ∀ sqlLower snap filters, snap.store = st →
    ∀ row ∈ LeadRepository.matching env sqlLower snap filters, row.lead.id ≠ leadId
  provenance : LeadRepository.provenance st leadId = []
  records : ∀ r ∈ st.records, r.leadId ≠ some leadId
  merges : ∀ m ∈ st.merges, m.leadId ≠ leadId

theorem Erased.forgotten (hst : st.Consistent) (h : st.Erased leadId) :
    st.Forgotten env leadId := by
  have hmerges : ∀ m ∈ st.merges, m.leadId ≠ leadId := by
    intro m hm hid
    exact h.2 (hst.mergeLead m hm leadId (congrArg some hid))
  refine ⟨?_, ?_, ?_, fun r hr hid => h.2 (hst.recordLead r hr leadId hid), hmerges⟩
  · rintro sqlLower snap rfl
    rw [getLead_eq, Table.find?_eq_none.mpr fun lead hlead hid => h.2 ⟨lead, hlead, hid⟩]
    rfl
  · rintro sqlLower snap filters rfl row hrow hid
    obtain ⟨lead, hlead, rfl⟩ := List.mem_map.mp hrow
    exact h.2 ⟨lead, (Table.mem_select.mp hlead).1, hid⟩
  · have hnone : (st.merges.select fun m => m.leadId == leadId) = [] := by
      refine List.eq_nil_iff_forall_not_mem.mpr fun m hm => ?_
      obtain ⟨hm, hid⟩ := Table.mem_select.mp hm
      exact hmerges m hm (by simpa using hid)
    rw [LeadRepository.provenance, hnone]
    rfl

end Store

/-- A lead goes only when it is deleted by its number or purged for its age, and then for good:
whatever happens afterwards, no request finds it and nothing refers to it. -/
theorem erased_leads_stay_erased (hst : st.Reached env) {lead : Lead} (hlead : lead ∈ st.leads)
    (op : Operation) (hgone : ¬(op.step env st).leads.Has lead.id) :
    ((∃ suppressed, op = .deleteLead lead.id suppressed) ∨
        ∃ cutoff, op = .purge cutoff ∧ lead.lastSeenAt < cutoff) ∧
      ∀ ops, (execute (Operation.step env) (op.step env st) ops).Forgotten env lead.id := by
  have hremoved := Operation.removes_lead hst.consistent hlead hgone
  have hissued : lead.id < (op.step env st).leads.next := by
    have hbefore : lead.id < st.leads.next := Table.key_lt_next hlead
    rcases hremoved with ⟨suppressed, rfl⟩ | ⟨cutoff, rfl, -⟩
    · exact deleteLeadRoute_keeps env (P := fun st => lead.id < st.leads.next) (fun _ _ hst => hst)
        (fun _ _ hst => hst) hbefore lead.id suppressed
    · exact Store.purge_keeps (P := fun st => lead.id < st.leads.next) (fun _ _ hst => hst)
        hbefore cutoff
  have herased : (op.step env st).Erased lead.id := ⟨hissued, hgone⟩
  refine ⟨hremoved, fun ops => ?_⟩
  exact (herased.run (hst.step op) ops).forgotten ((hst.step op).execute ops).consistent

/-- The record is collected again, and the lead it makes now has another number. -/
theorem erased_leads_stay_erased_recollected :
    (execute (Operation.step .ascii)
      ((Operation.deleteLead 1 false).step .ascii
        (execute (Operation.step .ascii) .empty collectedOnce))
      [.transaction (.collect Worker.csvTask.config none
        ⟨[(Worker.csvItem "1".toList "a@x.fi", none)], .ok ()⟩ 3 4) none]).Forgotten .ascii 1 := by
  obtain ⟨lead, hlead, hid⟩ :
      ∃ l ∈ (execute (Operation.step .ascii) .empty collectedOnce).leads, l.id = 1 := by
    decide +kernel
  have hgone : ¬((Operation.deleteLead 1 false).step .ascii
      (execute (Operation.step .ascii) .empty collectedOnce)).leads.Has lead.id := by
    rw [hid]
    unfold Table.Has
    decide +kernel
  have hforgotten := (erased_leads_stay_erased ⟨collectedOnce, rfl⟩ hlead _ hgone).2
    [.transaction (.collect Worker.csvTask.config none
      ⟨[(Worker.csvItem "1".toList "a@x.fi", none)], .ok ()⟩ 3 4) none]
  rw [hid] at hforgotten
  exact hforgotten

end LeadPipe
