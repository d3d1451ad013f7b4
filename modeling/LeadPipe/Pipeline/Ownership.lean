import LeadPipe.Pipeline.Integrity

/-!
# Which lead a record belongs to

A world is everything that can happen to the tables one step after the other: sources are
configured, records are ingested, with or without an exception, leads are erased or purged, and
values are put on the suppression list and taken off it. Along the way it remembers which calls
wrote which record.
-/

namespace LeadPipe

open Framework

variable (env : Platform)

inductive Event where
  | configure (config : SourceConfig)
  | ingest (call : IngestCall)
  | deleteLead (leadId : Nat) (suppress : Bool)
  | purge (cutoff : Instant)
  | suppress (kind : SuppressionKind) (value : Text) (reason : Option Text)
  | unsuppress (suppressionId : Nat)

structure World where
  store : Store
  produced : List (Nat × IngestCall)

namespace World

def empty : World := ⟨.empty, []⟩

/-- The call stores its record, whatever happens to it afterwards. -/
def stores (call : IngestCall) : Bool :=
  !call.blocked env && (validateLead env (call.lead env)).isOk

def step (w : World) : Event → World
  | .configure config =>
      { w with
        store := (SourceRepository.upsert config.name config.type config.priority
          config.enabled config.options w.store.session).2.view }
  | .ingest call =>
      { store := (ingest env call w.store.session).2.view
        produced :=
          if stores env call then (w.store.recordId env call, call) :: w.produced
          else w.produced }
  | .deleteLead leadId suppress =>
      { w with store := (deleteLeadRoute env w.store leadId suppress).getD w.store }
  | .purge cutoff => { w with store := w.store.purgeOlderThan cutoff }
  | .suppress kind value reason =>
      { w with store := SuppressionRepository.add env w.store kind value reason }
  | .unsuppress suppressionId =>
      { w with store := SuppressionRepository.remove w.store suppressionId }

def run (w : World) (events : List Event) : World := events.foldl (step env) w

def Reachable (w : World) : Prop := ∃ events, run env empty events = w

variable {env}

theorem reachable_of_invariant {P : Store → Prop} (hempty : P .empty)
    (hstep : ∀ w event, P w.store → P (step env w event).store) {w : World}
    (hw : Reachable env w) : P w.store := by
  obtain ⟨events, rfl⟩ := hw
  suffices hrun : ∀ w, P w.store → P (run env w events).store from hrun empty hempty
  induction events with
  | nil => exact fun w h => h
  | cons event events ih => exact fun w h => ih (step env w event) (hstep w event h)

end World

namespace Store

variable {env} {st st' : Store}

theorem configure_keeps (st : Store) (name type : Text) (priority : Int) (enabled : Bool)
    (config : Text) :
    ∃ sources, (SourceRepository.upsert name type priority enabled config st.session).2.view =
      { st with sources } := by
  have hopen : st.session.Healthy := ⟨rfl, rfl⟩
  obtain ⟨source, ws, hrun, hws⟩ :=
    SourceRepository.upsert_run hopen name type priority enabled config
  rw [hrun]
  exact Store.replay_sources hws st

theorem Aborts.keeps {call : IngestCall} {ws : List Write} (h : Aborts env st call ws) :
    (Session.replay ws st).leads = st.leads ∧ (Session.replay ws st).merges = st.merges := by
  cases h with
  | ungraded => exact ⟨rfl, rfl⟩
  | unmerged => exact ⟨upsertWrite_leads env _ _ _, upsertWrite_merges env _ _ _⟩

theorem LinksIssued.ingest (h : LinksIssued st) (call : IngestCall) :
    LinksIssued (ingest env call st.session).2.view := by
  have hopen : st.session.Healthy := ⟨rfl, rfl⟩
  rcases hrun : LeadPipe.ingest env call st.session with ⟨e | a, s⟩
  · obtain ⟨ws, ha, hview, -⟩ := ingest_raises env hopen hrun
    have hkeeps := Aborts.keeps ha
    intro m hm
    rw [hview] at hm ⊢
    rw [hkeeps.1]
    rw [hkeeps.2] at hm
    exact h m hm
  · obtain ⟨ws, hi, hview, -⟩ := ingest_completes env hopen hrun
    change LinksIssued s.view
    rw [hview]
    cases hb : call.blocked env with
    | true =>
        cases hi with
        | suppressed => exact h
        | placed unblocked => simp [hb] at unblocked
    | false =>
        obtain ⟨validation, row, hs⟩ := hi.settles hb
        exact h.settles hs

theorem LinksIssued.deleteLead (h : LinksIssued st) (leadId : Nat) :
    LinksIssued (st.deleteLead leadId) :=
  fun m hm => h m (Table.mem_erase.mp hm).1

theorem LinksIssued.congr (h : LinksIssued st) (hleads : st'.leads = st.leads)
    (hmerges : st'.merges = st.merges) : LinksIssued st' := by
  unfold LinksIssued
  rw [hleads, hmerges]
  exact h

end Store

namespace World

variable {env : Platform} {P : Store → Prop}

/-- What one thing after the other keeps of the tables. -/
structure Keeps (env : Platform) (P : Store → Prop) : Prop where
  empty : P .empty
  configure : ∀ (st : Store) (config : SourceConfig), P st →
    P (SourceRepository.upsert config.name config.type config.priority config.enabled
      config.options st.session).2.view
  suppressions : ∀ (st : Store) (suppressions : Table Suppression), P st →
    P { st with suppressions }
  ingest : ∀ st call, P st → P (LeadPipe.ingest env call st.session).2.view
  delete : ∀ st leadId, P st → P (st.deleteLead leadId)

theorem Keeps.of_rows (hempty : P .empty)
    (hcongr : ∀ st st', st'.records = st.records → st'.leads = st.leads →
      st'.merges = st.merges → P st → P st')
    (hingest : ∀ st call, P st → P (LeadPipe.ingest env call st.session).2.view)
    (hdelete : ∀ st leadId, P st → P (st.deleteLead leadId)) : Keeps env P where
  empty := hempty
  configure st config hst := by
    obtain ⟨sources, hkeep⟩ := Store.configure_keeps st config.name config.type
      config.priority config.enabled config.options
    rw [hkeep]
    exact hcongr st _ rfl rfl rfl hst
  suppressions st suppressions hst := hcongr st _ rfl rfl rfl hst
  ingest := hingest
  delete := hdelete

theorem Keeps.purge (h : Keeps env P) {st : Store} (hst : P st) (cutoff : Instant) :
    P (st.purgeOlderThan cutoff) := by
  unfold Store.purgeOlderThan
  generalize (st.leads.select fun l => l.lastSeenAt < cutoff) = leads
  induction leads generalizing st with
  | nil => exact hst
  | cons l leads ih => exact ih (h.delete st l.id hst)

theorem Keeps.deleteRoute (h : Keeps env P) {st : Store} (hst : P st) (leadId : Nat)
    (suppress : Bool) : P ((deleteLeadRoute env st leadId suppress).getD st) := by
  unfold deleteLeadRoute
  cases st.leads.find? leadId with
  | none => exact hst
  | some lead =>
      cases suppress with
      | false => exact h.delete st leadId hst
      | true =>
          obtain ⟨suppressions, hadd⟩ := SuppressionRepository.addForLead_keeps env st lead.email
            lead.websiteDomain ("lead ".toList ++ Text.ofNat leadId ++ " deleted".toList)
          have hadded := h.suppressions st suppressions hst
          rw [← hadd] at hadded
          exact h.delete _ leadId hadded

theorem Keeps.reachable (h : Keeps env P) {w : World} (hw : w.Reachable env) : P w.store := by
  refine reachable_of_invariant h.empty (fun w event hst => ?_) hw
  cases event with
  | configure config => exact h.configure w.store config hst
  | ingest call => exact h.ingest w.store call hst
  | deleteLead leadId suppress => exact h.deleteRoute hst leadId suppress
  | purge cutoff => exact h.purge hst cutoff
  | suppress kind value reason =>
      obtain ⟨suppressions, hkeep⟩ := SuppressionRepository.add_keeps env w.store kind value reason
      have hsame := h.suppressions w.store suppressions hst
      rw [← hkeep] at hsame
      exact hsame
  | unsuppress suppressionId => exact h.suppressions w.store _ hst

theorem keeps_linksIssued (env : Platform) : Keeps env Store.LinksIssued :=
  .of_rows (fun m hm => absurd hm (Table.not_mem_empty m))
    (fun _ _ _ hleads hmerges h => h.congr hleads hmerges) (fun _ call h => h.ingest call)
    fun _ leadId h => h.deleteLead leadId

theorem Reachable.linksIssued {w : World} (hw : w.Reachable env) : w.store.LinksIssued :=
  (keeps_linksIssued env).reachable hw

end World

namespace Store

variable (env : Platform) (st : Store) (call : IngestCall)

/-- The record of the call belongs to the lead whose row the call rebuilt or created. -/
def OwnerFollows (st' : Store) : Prop :=
  ∃ r ∈ st'.records, r.id = st.recordId env call ∧ r.leadId = some (st.target env call)

/-- The call merges the record into a lead that has a link to it already, which then is
rewritten and claims nothing. -/
def relinks : Bool :=
  match st.decision env call with
  | .join existing _ => (LeadRepository.linkBetween st existing.id (st.recordId env call)).isSome
  | _ => false

variable {env st call}

/-- The matched lead is never the record's own, so a record that is not claimed stays away. -/
private theorem current_ne_match {existing : Lead} {result : MatchResult}
    (hb : st.bestOf env call = some (existing, result)) :
    (st.recordOf env call).bind SourceRecord.leadId ≠ some existing.id := by
  intro hcurrent
  obtain ⟨hmem, hexclude, -⟩ := bestOf_some hb
  have hfind : st.leads.find? existing.id = some existing := Table.find?_eq_some.mpr ⟨hmem, rfl⟩
  exact hexclude (by simp [ownOf, hcurrent, hfind])

theorem attached_eq_target (hlinks : st.LinksIssued) :
    st.attached env call = some (st.target env call) ↔ st.relinks env call = false := by
  cases hd : st.decision env call with
  | join existing result =>
      have hne := current_ne_match (decision_join hd).1
      simp only [attached, target, relinks, hd]
      split
      · simp [*]
      · simp [*]
  | refresh own =>
      have hcurrent := (ownOf_some (decision_refresh hd)).2
      simp [attached, target, relinks, hd, hcurrent]
  | found =>
      have hnone := hlinks.unlinked (st.recordId env call)
      simp [attached, target, relinks, hd, hnone]

end Store

variable {env : Platform}

theorem ownership_follows_decision {w : World} (hw : w.Reachable env) {call : IngestCall}
    (hopen : call.blocked env = false) {s' : Session Store Write RunStats}
    (hrun : ingest env call w.store.session = (.ok (), s')) :
    w.store.OwnerFollows env call s'.view ↔ w.store.relinks env call = false := by
  obtain ⟨ws, hi, hview, -⟩ := ingest_completes env ⟨rfl, rfl⟩ hrun
  obtain ⟨validation, row, hs⟩ := hi.settles hopen
  rw [hview, ← Store.attached_eq_target hw.linksIssued]
  constructor
  · rintro ⟨r, hr, hid, hlead⟩
    rcases (hs.records r).mp hr with rfl | ⟨-, hne⟩
    · exact hlead
    · exact absurd hid hne
  · intro hattached
    refine ⟨_, (hs.records _).mpr (.inl rfl), upserted_id env _ _ validation, ?_⟩
    exact hattached

/-- Two records of one name and town: the second is put up for review against the lead of the
first. -/
def reviewed : World :=
  World.run .ascii .empty
    [.configure ⟨Source.csv.name, Source.csv.type, true, 0, none, []⟩,
      .ingest (.plain .csv 1 [("external_id", "1"), ("company_name", "Acme"), ("city", "Oulu"),
        ("email", "a@x.fi")]),
      .ingest (.plain .csv 2 [("external_id", "2"), ("company_name", "Acme"), ("city", "Oulu"),
        ("email", "b@x.fi")])]

def recollected (email : String) : IngestCall :=
  .plain .csv 3 [("external_id", "2"), ("company_name", "Acme"), ("city", "Oulu"),
    ("email", email)]

private theorem recollected_completes (email : String)
    (h : (ingest .ascii (recollected email) reviewed.store.session).1.isOk = true) :
    ingest .ascii (recollected email) reviewed.store.session =
      (.ok (), (ingest .ascii (recollected email) reviewed.store.session).2) := by
  rcases hrun : ingest .ascii (recollected email) reviewed.store.session with ⟨e | ⟨⟩, s⟩
  · rw [hrun] at h
    cases h
  · rfl

theorem ownership_follows_decision_refreshed :
    Store.OwnerFollows .ascii reviewed.store (recollected "b@x.fi")
      (ingest .ascii (recollected "b@x.fi") reviewed.store.session).2.view :=
  (ownership_follows_decision ⟨_, rfl⟩ (by decide +kernel)
    (recollected_completes "b@x.fi" (by decide +kernel))).mpr (by decide +kernel)

theorem ownership_stays_behind :
    ¬∀ (env : Platform) (w : World), w.Reachable env → ∀ call : IngestCall,
      call.blocked env = false → ∀ s', ingest env call w.store.session = (.ok (), s') →
        w.store.OwnerFollows env call s'.view := by
  intro h
  have hne : ¬Store.OwnerFollows .ascii reviewed.store (recollected "a@x.fi")
      (ingest .ascii (recollected "a@x.fi") reviewed.store.session).2.view := by
    unfold Store.OwnerFollows
    decide +kernel
  exact hne (h .ascii reviewed ⟨_, rfl⟩ (recollected "a@x.fi") (by decide +kernel) _
    (recollected_completes "a@x.fi" (by decide +kernel)))

end LeadPipe
