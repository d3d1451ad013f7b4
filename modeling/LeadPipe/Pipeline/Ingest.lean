import LeadPipe.Pipeline.Runner

/-!
# What one `_ingest` call does

The decision of a call is a function of the store it finds: which row carries the record's
key, which lead that row belongs to, and which lead matches best. `Ingests` lists the writes
of a call that completes, branch by branch; everything proved later about collections goes
through it and not through the program.
-/

namespace LeadPipe

open Framework

variable (env : Platform)

namespace IngestCall

def lead (call : IngestCall) : NormalizedLead := normalizeRecord env call.raw call.region

def recordKey (call : IngestCall) : Text :=
  SourceRecordRepository.recordKey env (call.lead env) (call.lead env).externalId

def blocked (call : IngestCall) : Bool :=
  (call.suppressions.blocks (call.lead env).toLeadPayload).isSome

end IngestCall

namespace Store

variable (st : Store) (call : IngestCall)

/-- The stored row of the call's record, from an earlier collection. -/
def recordOf : Option SourceRecord :=
  SourceRecordRepository.byKey st call.source.id (call.recordKey env)

/-- The row as the call leaves it, up to the lead it belongs to. -/
def upserted (validation : LeadValidation) : SourceRecord :=
  SourceRecordRepository.fill env
    ((st.recordOf env call).getD (SourceRecordRepository.blank st.records.next call.source.id
      (call.recordKey env) (call.lead env)))
    (call.lead env) validation (some call.jobId) (call.lead env).externalId

def upsertWrite (validation : LeadValidation) : Write :=
  match st.recordOf env call with
  | none => .insertRecord (st.upserted env call validation)
  | some _ => .updateRecord (st.upserted env call validation)

def recordId : Nat := ((st.recordOf env call).map SourceRecord.id).getD st.records.next

def ownOf : Option Lead :=
  ((st.recordOf env call).bind SourceRecord.leadId).bind st.leads.find?

def shortlistOf : List Lead :=
  let fp := fingerprints env (call.lead env)
  if LeadRepository.hasConditions fp then LeadRepository.shortlist env st fp else []

def bestOf : Option (Lead × MatchResult) :=
  pickBest env (call.lead env) ((st.ownOf env call).map Lead.id) (st.shortlistOf env call)

end Store

inductive Decision where
  | join (existing : Lead) (result : MatchResult)
  | refresh (own : Lead)
  | found
  deriving DecidableEq

namespace Store

variable (st : Store) (call : IngestCall)

/-- Without an automatic match the record refreshes its own lead or founds one. -/
def alone : Decision :=
  match st.ownOf env call with
  | some own => .refresh own
  | none => .found

def decision : Decision :=
  match st.bestOf env call with
  | some (existing, result) =>
      if result.autoMerge then .join existing result else st.alone env call
  | none => st.alone env call

/-- The candidates a lead is rebuilt from: its records, and the incoming one as it is now. -/
def rebuilt (leadId recordId : Nat) : List Candidate :=
  withIncoming (LeadRepository.candidatesFor st leadId) (call.lead env) recordId call.priority

/-- The row `_remerge` writes for a lead, or the `ValueError` it raises. -/
def remerged (leadRow : Lead) (recordId : Nat) : Except PyError Lead :=
  match merge (st.rebuilt env call leadRow.id recordId) with
  | none => .error .valueError
  | some merged =>
      (validateLead env merged.lead).map (LeadRepository.applyMerged env leadRow merged)

theorem remerged_ok {leadRow row : Lead} {recordId : Nat} :
    st.remerged env call leadRow recordId = .ok row ↔
      ∃ merged graded, merge (st.rebuilt env call leadRow.id recordId) = some merged ∧
        validateLead env merged.lead = .ok graded ∧
        LeadRepository.applyMerged env leadRow merged graded = row := by
  unfold remerged
  cases merge (st.rebuilt env call leadRow.id recordId) with
  | none => simp
  | some merged => cases hv : validateLead env merged.lead <;> simp [Except.map, hv]

def linkWrites (leadId recordId : Nat) (rule : Text) (confidence : ℚ) (needsReview claim : Bool) :
    List Write :=
  match LeadRepository.linkBetween st leadId recordId with
  | some existing => [.updateMerge { existing with rule, confidence, needsReview }]
  | none =>
      (if claim then [.claimRecord recordId leadId] else []) ++
        [.insertMerge ⟨st.merges.next, leadId, recordId, rule, confidence, needsReview⟩]

def flagWrites (best : Option (Lead × MatchResult)) (recordId : Nat) : List Write :=
  match best with
  | some (existing, result) =>
      if result.autoMerge then []
      else st.linkWrites existing.id recordId result.rule.value result.confidence true false
  | none => []

def founder (merged : MergedLead) (validation : LeadValidation) : Lead :=
  LeadRepository.applyMerged env (LeadRepository.blank st.leads.next merged) merged validation

end Store

/-- The writes of the branch a call takes, after the record's own row is written. -/
inductive Places (st : Store) (call : IngestCall) (validation : LeadValidation) :
    List Write → Prop
  | join {existing row : Lead} {result : MatchResult}
      (decided : st.decision env call = .join existing result)
      (rebuilds : ((st.upsertWrite env call validation).apply st).remerged env call existing
        (st.recordId env call) = .ok row) :
      Places st call validation
        (.updateLead row :: st.linkWrites existing.id (st.recordId env call) result.rule.value
          result.confidence false true)
  | refresh {own row : Lead}
      (decided : st.decision env call = .refresh own)
      (rebuilds : ((st.upsertWrite env call validation).apply st).remerged env call own
        (st.recordId env call) = .ok row) :
      Places st call validation [.updateLead row]
  | found {merged : MergedLead}
      (decided : st.decision env call = .found)
      (merges : merge [⟨call.lead env, Text.ofNat (st.recordId env call), call.priority⟩] =
        some merged) :
      Places st call validation
        (.insertLead (st.founder env merged validation) ::
          st.linkWrites st.leads.next (st.recordId env call) initialRule 1 false true)

/-- The writes of a call that completes. -/
inductive Ingests (st : Store) (call : IngestCall) : List Write → Prop
  | suppressed (blocked : call.blocked env = true) : Ingests st call []
  | placed {validation : LeadValidation} {placed flags : List Write}
      (unblocked : call.blocked env = false)
      (validates : validateLead env (call.lead env) = .ok validation)
      (places : Places env st call validation placed)
      (flagged : flags = (Session.replay (st.upsertWrite env call validation :: placed)
        st).flagWrites (st.bestOf env call) (st.recordId env call)) :
      Ingests st call (st.upsertWrite env call validation :: (placed ++ flags))

/-- The writes of a call that raises: the record may have been stored already. -/
inductive Aborts (st : Store) (call : IngestCall) : List Write → Prop
  | ungraded {e : PyError}
      (unblocked : call.blocked env = false)
      (stuck : validateLead env (call.lead env) = .error e) : Aborts st call []
  | unmerged {validation : LeadValidation} {target : Lead} {e : PyError}
      (unblocked : call.blocked env = false)
      (validates : validateLead env (call.lead env) = .ok validation)
      (decided : (∃ result, st.decision env call = .join target result) ∨
        st.decision env call = .refresh target)
      (stuck : ((st.upsertWrite env call validation).apply st).remerged env call target
        (st.recordId env call) = .error e) :
      Aborts st call [st.upsertWrite env call validation]

namespace RunStats

def plus (s t : RunStats) : RunStats where
  collected := s.collected + t.collected
  valid := s.valid + t.valid
  invalid := s.invalid + t.invalid
  unknown := s.unknown + t.unknown
  duplicates := s.duplicates + t.duplicates
  newLeads := s.newLeads + t.newLeads
  needsReview := s.needsReview + t.needsReview
  suppressed := s.suppressed + t.suppressed
  errors := s.errors + t.errors

instance instAdd : Add RunStats := ⟨plus⟩

theorem add_assoc (s t u : RunStats) : s + t + u = s + (t + u) := by
  change plus (plus s t) u = plus s (plus t u)
  simp only [plus, Nat.add_assoc]

@[simp] theorem zero_add (s : RunStats) : ({} : RunStats) + s = s := by
  change plus {} s = s
  simp [plus]

theorem add_graded (s : RunStats) (status : ValidationStatus) :
    s.graded status = s + ({} : RunStats).graded status := by
  cases status <;> rfl

end RunStats

def IngestCall.started (call : IngestCall) : RunStats :=
  match validateLead env (call.lead env) with
  | .error _ => { collected := 1 }
  | .ok validation => ({ collected := 1 } : RunStats) + ({} : RunStats).graded validation.status

def Decision.counted : Decision → RunStats
  | .join _ _ | .refresh _ => { duplicates := 1 }
  | .found => { newLeads := 1 }

namespace Store

variable (st : Store) (call : IngestCall)

def flagged : RunStats :=
  match st.bestOf env call with
  | some (_, result) => if result.autoMerge then {} else { needsReview := 1 }
  | none => {}

def counted : RunStats :=
  if call.blocked env then { collected := 1, suppressed := 1 }
  else call.started env + ((st.decision env call).counted + st.flagged env call)

end Store

section Runs

variable {s : Session Store Write RunStats}

private theorem upsert_run (h : s.Healthy) (call : IngestCall) (validation : LeadValidation) :
    ∃ isNew, SourceRecordRepository.upsert env call.source.id (call.lead env) validation
        (some call.jobId) (call.lead env).externalId s =
      (.ok (s.view.upserted env call validation, isNew),
        s.emit [s.view.upsertWrite env call validation]) := by
  unfold SourceRecordRepository.upsert
  simp only []
  rw [Txn.bind_ok (Txn.query_healthy h _)]
  cases hr : s.view.recordOf env call with
  | none =>
      have hq : SourceRecordRepository.byKey s.view call.source.id
          (SourceRecordRepository.recordKey env (call.lead env) (call.lead env).externalId) =
          none := hr
      refine ⟨true, ?_⟩
      simp only [hq]
      rw [Txn.bind_ok (Db.insert_healthy h _ _ _)]
      simp [Store.upserted, Store.upsertWrite, hr, IngestCall.recordKey]
  | some record =>
      have hq : SourceRecordRepository.byKey s.view call.source.id
          (SourceRecordRepository.recordKey env (call.lead env) (call.lead env).externalId) =
          some record := hr
      refine ⟨false, ?_⟩
      simp only [hq]
      rw [Txn.bind_ok (Txn.execute_healthy h _)]
      simp [Store.upserted, Store.upsertWrite, hr]

private theorem link_run (h : s.Healthy) (leadId recordId : Nat) (rule : Text) (confidence : ℚ)
    (needsReview claim : Bool) :
    LeadRepository.link leadId recordId rule confidence needsReview claim s =
      (.ok (), s.emit (s.view.linkWrites leadId recordId rule confidence needsReview claim)) := by
  unfold LeadRepository.link Store.linkWrites
  rw [Txn.bind_ok (Txn.query_healthy h _)]
  cases hl : LeadRepository.linkBetween s.view leadId recordId with
  | some existing => exact Txn.execute_healthy h _
  | none =>
      cases claim with
      | true =>
          simp only [if_true]
          rw [Txn.bind_ok (Txn.execute_healthy h _), Txn.bind_ok (Db.insert_healthy (h.emit _) _ _ _),
            Txn.pure_run, Session.emit_emit]
          rfl
      | false =>
          simp only [Bool.false_eq_true, if_false]
          rw [Txn.bind_ok (Db.insert_healthy h _ _ _)]
          rfl

private theorem remerge_run (h : s.Healthy) (leadRow : Lead) (call : IngestCall)
    (recordId : Nat) :
    remerge env leadRow (call.lead env) recordId call.priority s =
      match s.view.remerged env call leadRow recordId with
      | .ok row => (.ok (), s.emit [.updateLead row])
      | .error e => (.error (.raised e), s) := by
  unfold remerge Store.remerged
  rw [Txn.bind_ok (Txn.query_healthy h _)]
  change (match merge (s.view.rebuilt env call leadRow.id recordId) with
    | none => Txn.raise PyError.valueError
    | some merged => _) s = _
  cases merge (s.view.rebuilt env call leadRow.id recordId) with
  | none => rfl
  | some merged =>
      cases hv : validateLead env merged.lead with
      | error e =>
          simp only [hv, Except.map]
          exact Txn.bind_error rfl
      | ok graded =>
          simp only [hv, Txn.lift_ok, Except.map]
          rw [Txn.bind_ok (Txn.pure_run _ _), LeadRepository.update, Txn.execute_healthy h]

theorem bestMatch_run (h : s.Healthy) (lead : NormalizedLead) (exclude : Option Nat) :
    bestMatch env lead exclude s =
      (.ok (pickBest env lead exclude
        (if LeadRepository.hasConditions (fingerprints env lead) then
          LeadRepository.shortlist env s.view (fingerprints env lead) else [])), s) := by
  unfold bestMatch LeadRepository.findCandidates
  split
  · rw [Txn.bind_ok (Txn.query_healthy h _)]
    rfl
  · rfl

private theorem ownLead_run (h : s.Healthy) (record : SourceRecord) :
    ownLead record s = (.ok (record.leadId.bind s.view.leads.find?), s) := by
  unfold ownLead
  cases record.leadId with
  | none => rfl
  | some leadId => exact Txn.query_healthy h _

private theorem linkWrites_congr {st st' : Store} (h : st.merges = st'.merges)
    (leadId recordId : Nat) (rule : Text) (confidence : ℚ) (needsReview claim : Bool) :
    st.linkWrites leadId recordId rule confidence needsReview claim =
      st'.linkWrites leadId recordId rule confidence needsReview claim := by
  simp [Store.linkWrites, LeadRepository.linkBetween, h]

@[simp] theorem upsertWrite_merges (st : Store) (call : IngestCall)
    (validation : LeadValidation) :
    ((st.upsertWrite env call validation).apply st).merges = st.merges := by
  unfold Store.upsertWrite
  split <;> rfl

@[simp] theorem upsertWrite_leads (st : Store) (call : IngestCall)
    (validation : LeadValidation) :
    ((st.upsertWrite env call validation).apply st).leads = st.leads := by
  unfold Store.upsertWrite
  split <;> rfl

@[simp] theorem upserted_id (st : Store) (call : IngestCall) (validation : LeadValidation) :
    (st.upserted env call validation).id = st.recordId env call := by
  cases h : st.recordOf env call <;>
    simp [Store.upserted, Store.recordId, SourceRecordRepository.fill,
      SourceRecordRepository.blank, h]

@[simp] theorem upserted_leadId (st : Store) (call : IngestCall) (validation : LeadValidation) :
    (st.upserted env call validation).leadId =
      (st.recordOf env call).bind SourceRecord.leadId := by
  cases h : st.recordOf env call <;>
    simp [Store.upserted, SourceRecordRepository.fill, SourceRecordRepository.blank, h]

/-- Where an attempt left the session: these writes made and this much counted. -/
private def Reaches (s : Session Store Write RunStats) (ws : List Write) (counted : RunStats)
    (s' : Session Store Write RunStats) : Prop :=
  s' = (s.emit ws).note (· + counted)

private theorem Reaches.refl (s : Session Store Write RunStats) : Reaches s [] {} s := by
  simp only [Reaches, Session.emit_nil]
  rfl

private theorem Reaches.note {ws : List Write} {counted : RunStats}
    {s' : Session Store Write RunStats} (h : Reaches s ws counted s') (more : RunStats)
    {g : RunStats → RunStats} (hg : ∀ c, g c = c + more) : Reaches s ws (counted + more) (s'.note g) := by
  rw [h, Reaches]
  simp only [Session.note, hg, RunStats.add_assoc]

private theorem Reaches.healthy {ws : List Write} {counted : RunStats}
    {s' : Session Store Write RunStats} (hr : Reaches s ws counted s') (h : s.Healthy) :
    s'.Healthy := by
  rw [hr]
  exact (h.emit ws).note _

private theorem Reaches.trans {ws vs : List Write} {counted more : RunStats}
    {s₁ s₂ : Session Store Write RunStats} (h₁ : Reaches s ws counted s₁)
    (h₂ : Reaches s₁ vs more s₂) : Reaches s (ws ++ vs) (counted + more) s₂ := by
  rw [h₂, h₁, Reaches]
  simp [Session.emit, Session.note, Session.replay_append, RunStats.add_assoc]

private theorem Reaches.log {ws : List Write} {counted : RunStats}
    {s' : Session Store Write RunStats} (hr : Reaches s ws counted s') : s'.log = s.log ++ ws := by
  rw [hr]
  rfl

private theorem Reaches.view {ws : List Write} {counted : RunStats}
    {s' : Session Store Write RunStats} (hr : Reaches s ws counted s') :
    s'.view = Session.replay ws s.view := by
  rw [hr]
  rfl

private theorem Reaches.notes {ws : List Write} {counted : RunStats}
    {s' : Session Store Write RunStats} (hr : Reaches s ws counted s') :
    s'.notes = s.notes + counted := by
  rw [hr]
  rfl

variable {st : Store} {call : IngestCall} {validation : LeadValidation}

private theorem attach_run (h : s.Healthy)
    (hs : s.view = (st.upsertWrite env call validation).apply st)
    (hd : st.decision env call = st.alone env call) :
    (∃ ws s', place.attach env call (call.lead env) validation
        (st.upserted env call validation) (st.ownOf env call) s = (.ok (), s') ∧
      Places env st call validation ws ∧ Reaches s ws (st.decision env call).counted s') ∨
    (∃ target e, place.attach env call (call.lead env) validation
        (st.upserted env call validation) (st.ownOf env call) s = (.error (.raised e), s) ∧
      st.decision env call = .refresh target ∧
      s.view.remerged env call target (st.recordId env call) = .error e) := by
  unfold place.attach
  rw [upserted_id]
  unfold Store.alone at hd
  cases ho : st.ownOf env call with
  | some own =>
      simp only [ho] at hd ⊢
      have hremerge := remerge_run env h own call (st.recordId env call)
      cases hm : s.view.remerged env call own (st.recordId env call) with
      | error e =>
          rw [hm] at hremerge
          rw [Txn.bind_error hremerge]
          exact .inr ⟨own, e, rfl, hd, hm⟩
      | ok row =>
          rw [hm] at hremerge
          rw [Txn.bind_ok hremerge, Txn.note_run]
          rw [hs] at hm
          refine .inl ⟨_, _, rfl, .refresh hd hm, ?_⟩
          rw [hd]
          rfl
  | none =>
      simp only [ho] at hd ⊢
      left
      obtain ⟨merged, hm⟩ := merge_singleton
        ⟨call.lead env, Text.ofNat (st.recordId env call), call.priority⟩
      simp only [hm]
      have hcreate := Db.insert_healthy h (fun st => st.leads.next) Write.insertLead fun id =>
        LeadRepository.applyMerged env (LeadRepository.blank id merged) merged validation
      rw [LeadRepository.create, Txn.bind_ok hcreate,
        Txn.bind_ok (link_run (h.emit _) _ _ _ _ _ _), Txn.note_run]
      have hleads : s.view.leads.next = st.leads.next := by rw [hs, upsertWrite_leads]
      have hmerges (row : Lead) : (s.emit [Write.insertLead row]).view.merges = st.merges := by
        change s.view.merges = st.merges
        rw [hs, upsertWrite_merges]
      rw [Session.emit_emit, hleads, linkWrites_congr (hmerges _)]
      refine ⟨_, _, rfl, .found hd hm, ?_⟩
      rw [hd]
      rfl

private theorem place_run (st : Store) (h : s.Healthy)
    (hs : s.view = (st.upsertWrite env call validation).apply st) :
    (∃ ws s', place env call (call.lead env) validation (st.upserted env call validation)
        (st.ownOf env call) (st.bestOf env call) s = (.ok (), s') ∧
      Places env st call validation ws ∧ Reaches s ws (st.decision env call).counted s') ∨
    (∃ target e, place env call (call.lead env) validation (st.upserted env call validation)
        (st.ownOf env call) (st.bestOf env call) s = (.error (.raised e), s) ∧
      ((∃ result, st.decision env call = .join target result) ∨
        st.decision env call = .refresh target) ∧
      s.view.remerged env call target (st.recordId env call) = .error e) := by
  unfold place
  cases hb : st.bestOf env call with
  | none =>
      have hd : st.decision env call = st.alone env call := by simp only [Store.decision, hb]
      rcases attach_run env h hs hd with hok | ⟨target, e, hrun, hd, hstuck⟩
      · exact .inl hok
      · exact .inr ⟨target, e, hrun, .inr hd, hstuck⟩
  | some best =>
      obtain ⟨existing, result⟩ := best
      by_cases ha : result.autoMerge = true
      · simp only [ha, if_true]
        rw [upserted_id]
        have hd : st.decision env call = .join existing result := by
          simp [Store.decision, hb, ha]
        have hremerge := remerge_run env h existing call (st.recordId env call)
        cases hm : s.view.remerged env call existing (st.recordId env call) with
        | error e =>
            rw [hm] at hremerge
            rw [Txn.bind_error hremerge]
            exact .inr ⟨existing, e, rfl, .inl ⟨result, hd⟩, hm⟩
        | ok row =>
            rw [hm] at hremerge
            rw [Txn.bind_ok hremerge, Txn.bind_ok (link_run (h.emit _) _ _ _ _ _ _), Txn.note_run]
            have hmerges (row : Lead) :
                (s.emit [Write.updateLead row]).view.merges = st.merges := by
              change s.view.merges = st.merges
              rw [hs, upsertWrite_merges]
            rw [Session.emit_emit, linkWrites_congr (hmerges _)]
            rw [hs] at hm
            refine .inl ⟨_, _, rfl, .join hd hm, ?_⟩
            rw [hd]
            rfl
      · have hd : st.decision env call = st.alone env call := by
          simp only [Store.decision, hb, ha, if_false, Bool.false_eq_true]
        simp only [ha, if_false, Bool.false_eq_true]
        rcases attach_run env h hs hd with hok | ⟨target, e, hrun, hd, hstuck⟩
        · exact .inl hok
        · exact .inr ⟨target, e, hrun, .inr hd, hstuck⟩

private theorem flag_run (st : Store) (call : IngestCall) (validation : LeadValidation)
    (h : s.Healthy) :
    ∃ s', flag (st.upserted env call validation) (st.bestOf env call) s = (.ok (), s') ∧
      Reaches s (s.view.flagWrites (st.bestOf env call) (st.recordId env call))
        (st.flagged env call) s' := by
  unfold flag Store.flagged
  cases hb : st.bestOf env call with
  | none => exact ⟨s, rfl, Reaches.refl s⟩
  | some best =>
      obtain ⟨existing, result⟩ := best
      rw [upserted_id]
      by_cases ha : result.autoMerge = true
      · simp only [ha, Bool.not_true, Bool.false_eq_true, if_false, Store.flagWrites, if_true]
        exact ⟨s, rfl, Reaches.refl s⟩
      · simp only [ha, Bool.not_false, if_true, Store.flagWrites]
        rw [Txn.bind_ok (link_run h _ _ _ _ _ _), Txn.note_run]
        exact ⟨_, rfl, rfl⟩

private theorem unblocked_run (h : s.Healthy) (call : IngestCall) (validation : LeadValidation) :
    let rest : Db Unit := do
      let (record, _) ← SourceRecordRepository.upsert env call.source.id (call.lead env) validation
        (some call.jobId) (call.lead env).externalId
      let own ← ownLead record
      let best ← bestMatch env (call.lead env) (own.map Lead.id)
      place env call (call.lead env) validation record own best
      flag record best
    (∃ ws s', rest s = (.ok (), s') ∧ Places env s.view call validation ws ∧
      Reaches s (s.view.upsertWrite env call validation ::
        (ws ++ (Session.replay (s.view.upsertWrite env call validation :: ws) s.view).flagWrites
          (s.view.bestOf env call) (s.view.recordId env call)))
        ((s.view.decision env call).counted + s.view.flagged env call) s') ∨
    (∃ target e s', rest s = (.error (.raised e), s') ∧
      ((∃ result, s.view.decision env call = .join target result) ∨
        s.view.decision env call = .refresh target) ∧
      ((s.view.upsertWrite env call validation).apply s.view).remerged env call target
        (s.view.recordId env call) = .error e ∧
      Reaches s [s.view.upsertWrite env call validation] {} s') := by
  intro rest
  obtain ⟨isNew, hup⟩ := upsert_run env h call validation
  have hrest : rest s = _ := Txn.bind_ok hup
  rw [hrest]
  set s₁ := s.emit [s.view.upsertWrite env call validation]
  have h₁ : s₁.Healthy := h.emit _
  have hstored : Reaches s [s.view.upsertWrite env call validation] {} s₁ := rfl
  have hleads : s₁.view.leads = s.view.leads := upsertWrite_leads env _ _ _
  have hown : ownLead (s.view.upserted env call validation) s₁ =
      (.ok (s.view.ownOf env call), s₁) := by
    have hown := ownLead_run h₁ (s.view.upserted env call validation)
    rwa [upserted_leadId, hleads] at hown
  have hbest : bestMatch env (call.lead env) ((s.view.ownOf env call).map Lead.id) s₁ =
      (.ok (s.view.bestOf env call), s₁) := by
    have hbest := bestMatch_run env h₁ (call.lead env) ((s.view.ownOf env call).map Lead.id)
    have hshort : LeadRepository.shortlist env s₁.view (fingerprints env (call.lead env)) =
        LeadRepository.shortlist env s.view (fingerprints env (call.lead env)) := by
      simp only [LeadRepository.shortlist, hleads]
    rwa [hshort] at hbest
  dsimp only
  rw [Txn.bind_ok hown, Txn.bind_ok hbest]
  rcases place_run env s.view h₁ rfl with
    ⟨ws, s₂, hrun, hplaces, hws⟩ | ⟨target, e, hrun, hd, hstuck⟩
  · obtain ⟨s₃, hflag, hlast⟩ := flag_run env s.view call validation (hws.healthy h₁)
    have hall := (hstored.trans hws).trans hlast
    rw [(hstored.trans hws).view, RunStats.zero_add] at hall
    rw [Txn.bind_ok hrun]
    exact .inl ⟨ws, s₃, hflag, hplaces, by simpa using hall⟩
  · exact .inr ⟨target, e, s₁, Txn.bind_error hrun, hd, hstuck, hstored⟩

private theorem ingest_run (h : s.Healthy) (call : IngestCall) :
    (∃ ws s', ingest env call s = (.ok (), s') ∧ Ingests env s.view call ws ∧
      Reaches s ws (s.view.counted env call) s') ∨
    (∃ ws e s', ingest env call s = (.error (.raised e), s') ∧ Aborts env s.view call ws ∧
      Reaches s ws (call.started env) s') := by
  have hlead : normalizeRecord env call.raw call.region = call.lead env := rfl
  unfold ingest
  simp only [hlead]
  rw [Txn.bind_ok (Txn.note_run _ _)]
  cases hb : call.suppressions.blocks (call.lead env).toLeadPayload with
  | some kind =>
      have hsuppressed : call.blocked env = true := by simp [IngestCall.blocked, hb]
      refine .inl ⟨[], _, rfl, .suppressed hsuppressed, ?_⟩
      simp only [Store.counted, hsuppressed, if_true]
      have hcollected := (Reaches.refl s).note { collected := 1 } fun _ => rfl
      exact hcollected.note { suppressed := 1 } fun _ => rfl
  | none =>
      have hopen : call.blocked env = false := by simp [IngestCall.blocked, hb]
      have hcollected := (Reaches.refl s).note { collected := 1 } fun _ => rfl
      dsimp only
      cases hv : validateLead env (call.lead env) with
      | error e =>
          refine .inr ⟨[], e, _, rfl, .ungraded hopen hv, ?_⟩
          simp only [IngestCall.started, hv]
          exact hcollected
      | ok validation =>
          rw [Txn.lift_ok, Txn.bind_ok (Txn.pure_run _ _), Txn.bind_ok (Txn.note_run _ _)]
          have hstarted : call.started env =
              ({ collected := 1 } : RunStats) + ({} : RunStats).graded validation.status := by
            simp only [IngestCall.started, hv]
          have hreach := hcollected.note _ fun c => c.add_graded validation.status
          rw [RunStats.zero_add, ← hstarted] at hreach
          set s₀ := (s.note _).note _ with hs₀
          have h₀ : s₀.Healthy := (h.note _).note _
          rcases unblocked_run env h₀ call validation with
            ⟨ws, s', hrun, hplaces, hws⟩ | ⟨target, e, s', hrun, hd, hstuck, hws⟩
          · have hall := hreach.trans hws
            refine .inl ⟨_, s', hrun, .placed hopen hv hplaces rfl, ?_⟩
            simp only [Store.counted, hopen, Bool.false_eq_true, if_false]
            exact hall
          · have hall := hreach.trans hws
            exact .inr ⟨_, e, s', hrun, .unmerged hopen hv hd hstuck, hall⟩

/-- A completed call makes the writes `Ingests` lists, and moves nothing else of the session but
the counters. -/
theorem ingest_completes (h : s.Healthy) {s' : Session Store Write RunStats}
    (hr : ingest env call s = (.ok (), s')) :
    ∃ ws, Ingests env s.view call ws ∧ s'.view = Session.replay ws s.view ∧
      s'.log = s.log ++ ws ∧ s'.Healthy := by
  rcases ingest_run env h call with ⟨ws, s₁, hrun, hi, hws⟩ | ⟨ws, e, s₁, hrun, -, -⟩
  · obtain rfl : s₁ = s' := by
      rw [hr] at hrun
      exact (congrArg Prod.snd hrun).symm
    exact ⟨ws, hi, hws.view, hws.log, hws.healthy h⟩
  · rw [hr] at hrun
    cases hrun

theorem ingest_raises (h : s.Healthy) {s' : Session Store Write RunStats} {e : Exn PyError}
    (hr : ingest env call s = (.error e, s')) :
    ∃ ws, Aborts env s.view call ws ∧ s'.view = Session.replay ws s.view ∧
      s'.log = s.log ++ ws ∧ s'.Healthy := by
  rcases ingest_run env h call with ⟨ws, s₁, hrun, -, -⟩ | ⟨ws, e, s₁, hrun, ha, hws⟩
  · rw [hr] at hrun
    cases hrun
  · obtain rfl : s₁ = s' := by
      rw [hr] at hrun
      exact (congrArg Prod.snd hrun).symm
    exact ⟨ws, ha, hws.view, hws.log, hws.healthy h⟩

theorem ingest_completes_counted (h : s.Healthy) {s' : Session Store Write RunStats}
    (hr : ingest env call s = (.ok (), s')) : s'.notes = s.notes + s.view.counted env call := by
  rcases ingest_run env h call with ⟨ws, s₁, hrun, -, hws⟩ | ⟨ws, e, s₁, hrun, -, -⟩
  · obtain rfl : s₁ = s' := by
      rw [hr] at hrun
      exact (congrArg Prod.snd hrun).symm
    exact hws.notes
  · rw [hr] at hrun
    cases hrun

theorem ingest_raises_counted (h : s.Healthy) {s' : Session Store Write RunStats} {e : Exn PyError}
    (hr : ingest env call s = (.error e, s')) : s'.notes = s.notes + call.started env := by
  rcases ingest_run env h call with ⟨ws, s₁, hrun, -, -⟩ | ⟨ws, e, s₁, hrun, -, hws⟩
  · rw [hr] at hrun
    cases hrun
  · obtain rfl : s₁ = s' := by
      rw [hr] at hrun
      exact (congrArg Prod.snd hrun).symm
    exact hws.notes

end Runs

end LeadPipe
