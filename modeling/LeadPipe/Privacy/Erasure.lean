import LeadPipe.Pipeline.Ownership

/-!
# Erasing a lead

`DELETE /api/leads/{id}` suppresses the address and the domain the lead shows. The records
behind the lead may carry others, and those are what a later collection brings back.
-/

namespace LeadPipe

open Framework

variable (env : Platform)

namespace SuppressionList

theorem hit_eq_true {value : Option Text} {entries : List Text} :
    hit value entries = true ↔ ∃ v, value = some v ∧ v ≠ [] ∧ v ∈ entries := by
  cases value with
  | none => simp [hit]
  | some v => simp [hit]

theorem blocks_isSome {s : SuppressionList} {lead : LeadPayload} :
    (s.blocks lead).isSome = true ↔
      hit lead.email s.emails = true ∨ hit lead.websiteDomain s.domains = true := by
  unfold blocks
  by_cases hemail : hit lead.email s.emails = true
  · simp [hemail]
  by_cases hdomain : hit lead.websiteDomain s.domains = true
  · simp [hemail, hdomain]
  · simp [hemail, hdomain]

theorem blocks_mono {s t : SuppressionList} {lead : LeadPayload}
    (hemails : ∀ v ∈ s.emails, v ∈ t.emails) (hdomains : ∀ v ∈ s.domains, v ∈ t.domains)
    (h : (s.blocks lead).isSome = true) : (t.blocks lead).isSome = true := by
  rw [blocks_isSome, hit_eq_true, hit_eq_true] at h ⊢
  rcases h with ⟨v, hv, hne, hmem⟩ | ⟨v, hv, hne, hmem⟩
  · exact .inl ⟨v, hv, hne, hemails v hmem⟩
  · exact .inr ⟨v, hv, hne, hdomains v hmem⟩

end SuppressionList

theorem ingest_suppressed {call : IngestCall} (h : call.blocked env = true)
    (s : Session Store Write RunStats) :
    (ingest env call s).2.view = s.view ∧ (ingest env call s).2.log = s.log := by
  unfold ingest
  rw [Txn.bind_ok (Txn.note_run _ _)]
  obtain ⟨kind, hkind⟩ := Option.isSome_iff_exists.mp h
  have hblocks : call.suppressions.blocks
      (normalizeRecord env call.raw call.region).toLeadPayload = some kind := hkind
  simp only [hblocks]
  exact ⟨rfl, rfl⟩

namespace World

variable (w : World) (leadId : Nat)

/-- The calls that wrote one of the lead's records, and whose record has a key to suppress. -/
def ProducedFor (call : IngestCall) : Prop :=
  ∃ p ∈ w.produced, p.2 = call ∧
    (∃ r ∈ w.store.records, r.id = p.1 ∧ r.leadId = some leadId) ∧
    ((call.lead env).email ≠ none ∨ (call.lead env).websiteDomain ≠ none)

/-- The list reloaded after the erasure blocks every record of the lead, and collecting such a
record again under it, or under a longer list, stores nothing. -/
def Erased (st' : Store) : Prop :=
  ∀ call, w.ProducedFor env leadId call →
    ((SuppressionRepository.list st').blocks (call.lead env).toLeadPayload).isSome = true ∧
      ∀ (suppressions : SuppressionList) (jobId : Nat),
        (∀ v ∈ (SuppressionRepository.list st').emails, v ∈ suppressions.emails) →
        (∀ v ∈ (SuppressionRepository.list st').domains, v ∈ suppressions.domains) →
          ∀ s, (ingest env { call with suppressions, jobId } s).2.view = s.view ∧
            (ingest env { call with suppressions, jobId } s).2.log = s.log

/-- The record's address or domain is the one the lead shows, in the form the suppression list
keeps it, or is on the list already. -/
def Covered (lead : Lead) (p : LeadPayload) : Prop :=
  (∃ v, p.email = some v ∧ v ≠ [] ∧ (v ∈ SuppressionRepository.values w.store .email ∨
    ∃ e, lead.email = some e ∧ e ≠ [] ∧ v = normalizeValue env .email e)) ∨
  (∃ v, p.websiteDomain = some v ∧ v ≠ [] ∧ (v ∈ SuppressionRepository.values w.store .domain ∨
    ∃ d, lead.websiteDomain = some d ∧ d ≠ [] ∧ v = normalizeValue env .domain d))

end World

theorem values_deleteLead (st : Store) (leadId : Nat) (kind : SuppressionKind) :
    SuppressionRepository.values (st.deleteLead leadId) kind =
      SuppressionRepository.values st kind := rfl

theorem blocks_after_delete {w : World} {leadId : Nat} {lead : Lead} {st' : Store}
    (hlead : w.store.leads.find? leadId = some lead)
    (hdelete : deleteLeadRoute env w.store leadId true = some st') (p : LeadPayload) :
    ((SuppressionRepository.list st').blocks p).isSome = true ↔ w.Covered env lead p := by
  simp only [deleteLeadRoute, hlead, Option.map_some, if_true, Option.some.injEq] at hdelete
  subst hdelete
  rw [SuppressionList.blocks_isSome, SuppressionList.hit_eq_true, SuppressionList.hit_eq_true]
  simp [SuppressionRepository.list, values_deleteLead,
    SuppressionRepository.mem_values_addForLead, World.Covered]

/-- In every world, reachable or not, erasing a lead keeps its records out exactly when every one
of them is covered. -/
theorem erasure_survives_collection {w : World} {leadId : Nat} {lead : Lead} {st' : Store}
    (hlead : w.store.leads.find? leadId = some lead)
    (hdelete : deleteLeadRoute env w.store leadId true = some st') :
    w.Erased env leadId st' ↔
      ∀ call, w.ProducedFor env leadId call →
        w.Covered env lead (call.lead env).toLeadPayload := by
  constructor
  · intro h call hcall
    exact (blocks_after_delete env hlead hdelete _).mp (h call hcall).1
  · intro h call hcall
    have hblocks := (blocks_after_delete env hlead hdelete _).mpr (h call hcall)
    refine ⟨hblocks, fun suppressions jobId hemails hdomains => ?_⟩
    have hblocked : IngestCall.blocked env { call with suppressions, jobId } = true :=
      SuppressionList.blocks_mono hemails hdomains hblocks
    exact ingest_suppressed env hblocked

def twoAddresses (first second : String) : World :=
  World.run .ascii .empty
    [.configure ⟨Source.csv.name, Source.csv.type, true, 0, none, []⟩,
      .ingest (.plain .csv 1 [("external_id", "1"), ("email", first), ("phone", "+358401")]),
      .ingest (.plain .csv 2 [("external_id", "2"), ("email", second), ("phone", "+358401")])]

private theorem twoAddresses_deleted (first second : String)
    (h : ((twoAddresses first second).store.leads.find? 1).isSome = true) :
    ∃ lead st', (twoAddresses first second).store.leads.find? 1 = some lead ∧
      deleteLeadRoute .ascii (twoAddresses first second).store 1 true = some st' := by
  obtain ⟨lead, hlead⟩ := Option.isSome_iff_exists.mp h
  exact ⟨lead, _, hlead, by rw [deleteLeadRoute, hlead]; rfl⟩

theorem erasure_survives_collection_covered :
    ∃ st', deleteLeadRoute .ascii (twoAddresses "a@x.fi" "a@x.fi").store 1 true = some st' ∧
      (twoAddresses "a@x.fi" "a@x.fi").Erased .ascii 1 st' := by
  obtain ⟨lead, st', hlead, hdelete⟩ :=
    twoAddresses_deleted "a@x.fi" "a@x.fi" (by decide +kernel)
  refine ⟨st', hdelete, (erasure_survives_collection .ascii hlead hdelete).mpr ?_⟩
  rintro call ⟨p, hp, rfl, -, -⟩
  have hcollected : ∀ p ∈ (twoAddresses "a@x.fi" "a@x.fi").produced,
      (p.2.lead .ascii).email = some "a@x.fi".toList := by decide +kernel
  have hshown : ((twoAddresses "a@x.fi" "a@x.fi").store.leads.find? 1).bind
      (fun lead => lead.email) = some "a@x.fi".toList := by decide +kernel
  rw [hlead, Option.bind_some] at hshown
  exact .inl ⟨_, hcollected p hp, by decide, .inr ⟨_, hshown, by decide, by decide +kernel⟩⟩

/-- The lead shows the second address, and the first record comes back under its own. -/
theorem erasure_forgets_other_addresses :
    ¬∀ (env : Platform) (w : World), w.Reachable env → ∀ leadId st',
      deleteLeadRoute env w.store leadId true = some st' → w.Erased env leadId st' := by
  intro h
  obtain ⟨lead, st', hlead, hdelete⟩ :=
    twoAddresses_deleted "a@x.fi" "b@x.fi" (by decide +kernel)
  have hlast : ((twoAddresses "a@x.fi" "b@x.fi").produced.getLast?).any (fun p =>
      decide ((∃ r ∈ (twoAddresses "a@x.fi" "b@x.fi").store.records,
        r.id = p.1 ∧ r.leadId = some 1) ∧ (p.2.lead .ascii).email ≠ none) &&
      (deleteLeadRoute .ascii (twoAddresses "a@x.fi" "b@x.fi").store 1 true).all fun st' =>
        ((SuppressionRepository.list st').blocks
          (p.2.lead .ascii).toLeadPayload).isNone) = true := by
    decide +kernel
  obtain ⟨p, hp, hmissed⟩ := (Option.any_eq_true _ _).mp hlast
  rw [hdelete, Option.all_some, Bool.and_eq_true, decide_eq_true_eq] at hmissed
  obtain ⟨⟨hrecord, hemail⟩, hmissed⟩ := hmissed
  have hblocked := (h .ascii _ ⟨_, rfl⟩ 1 st' hdelete p.2
    ⟨p, List.mem_of_getLast? hp, rfl, hrecord, .inl hemail⟩).1
  rw [Option.isNone_iff_eq_none.mp hmissed] at hblocked
  cases hblocked

end LeadPipe
