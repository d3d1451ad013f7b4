import LeadPipe.Api.Listing
import LeadPipe.Db.Constraints
import LeadPipe.Repositories.Leads

/-!
# Single leads and jobs

`GET /api/leads/{id}` of `app/api/routes.py`, which reads a lead as a page of one.
-/

namespace LeadPipe

open Framework

/-- `LeadDetail`: a row of the listing and where it comes from. -/
structure LeadDetail where
  row : LeadExport
  provenance : List LeadRepository.Provenance
  deriving DecidableEq

/-- The state a request reads, with the times the leads were stored at. -/
def Store.Consistent.snapshot {st : Store} (h : st.Consistent) (createdAt : Nat → Instant) :
    Snapshot where
  store := st
  createdAt := createdAt
  leads_from_one := h.leadsFromOne.2
  jobs_sourced j hj := by
    obtain ⟨source, hsource, hid⟩ := h.jobSource j hj _ rfl
    exact Option.isSome_iff_exists.mpr ⟨source, Table.find?_eq_some.mpr ⟨hsource, hid⟩⟩
  results_unique := h.resultOnce

section GetLead

variable (env : Platform) (sqlLower : Text → Text) (snap : Snapshot)

/-- The route; `none` is its 404. -/
def getLead (leadId : Nat) : Option LeadDetail :=
  match LeadRepository.page env sqlLower snap {} 1 (leadId - 1) with
  | [] => none
  | row :: _ =>
      if row.lead.id ≠ leadId then none
      else some ⟨row, LeadRepository.provenance snap.store leadId⟩

theorem conditions_none (lead : Lead) :
    LeadRepository.conditions env sqlLower snap {} lead = true := rfl

theorem exported_lead (lead : Lead) : (LeadRepository.exported snap lead).lead = lead := rfl

/-- The page of one that starts behind the number before is the lead of the number, if there is
one. -/
theorem getLead_eq (leadId : Nat) :
    getLead env sqlLower snap leadId = (snap.store.leads.find? leadId).map fun lead =>
      ⟨LeadRepository.exported snap lead, LeadRepository.provenance snap.store leadId⟩ := by
  have hrows : LeadRepository.page env sqlLower snap {} 1 (leadId - 1) =
      ((snap.store.leads.select fun lead => leadId - 1 < lead.id).take 1).map
        (LeadRepository.exported snap) := by
    simp only [LeadRepository.page, conditions_none, Bool.and_true]
  unfold getLead
  rw [hrows]
  have hsorted := snap.store.leads.select_sorted fun lead => leadId - 1 < lead.id
  have hmem (lead : Lead) : lead ∈ (snap.store.leads.select fun lead => leadId - 1 < lead.id) ↔
      lead ∈ snap.store.leads ∧ leadId - 1 < lead.id := by simp
  cases hselect : snap.store.leads.select fun lead => leadId - 1 < lead.id with
  | nil =>
      have hnone : snap.store.leads.find? leadId = none := by
        refine Table.find?_eq_none.mpr fun lead hlead hid => ?_
        have hone := snap.leads_from_one lead hlead
        have hnot : lead ∉ (snap.store.leads.select fun lead => leadId - 1 < lead.id) := by
          simp [hselect]
        refine hnot ((hmem lead).mpr ⟨hlead, ?_⟩)
        rw [key_lead] at hid
        omega
      rw [hnone]
      rfl
  | cons first rest =>
      rw [hselect] at hsorted hmem
      have hfirst := (hmem first).mp List.mem_cons_self
      simp only [List.take_succ_cons, List.take_zero, List.map_cons, List.map_nil]
      by_cases hid : first.id = leadId
      · have hfind : snap.store.leads.find? leadId = some first :=
          Table.find?_eq_some.mpr ⟨hfirst.1, hid⟩
        rw [hfind, exported_lead, if_neg (not_not.mpr hid), Option.map_some]
      · have hnone : snap.store.leads.find? leadId = none := by
          refine Table.find?_eq_none.mpr fun lead hlead hkey => ?_
          have hone := snap.leads_from_one lead hlead
          rw [key_lead] at hkey
          rcases List.mem_cons.mp ((hmem lead).mpr ⟨hlead, by omega⟩) with rfl | hrest
          · exact hid hkey
          · have hlt : first.id < lead.id := (List.pairwise_cons.mp hsorted).1 lead hrest
            have hle := hfirst.2
            omega
        rw [hnone, exported_lead, if_pos hid, Option.map_none]

end GetLead

end LeadPipe
