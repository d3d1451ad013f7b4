import LeadPipe.Framework.Transition
import LeadPipe.Privacy.Contacts

/-!
# Erasing a lead while collections run

Collections run next to each other and next to deletions. A run loads the suppression list when
it opens, reads what is committed and what it has written itself, and shows nothing to the
others before it commits; a deletion is one committed step. What a deletion suppresses is not
seen by the runs that are open already.
-/

namespace LeadPipe

open Framework

variable (env : Platform)

/-- A run between its first statement and its end. -/
structure OpenRun where
  config : SourceConfig
  source : Source
  job : CollectionJob
  suppressions : SuppressionList
  log : List Write
  stats : RunStats

/-- The open runs are named by numbers. -/
structure Traffic where
  committed : Store
  runs : List (Nat × OpenRun)

inductive TrafficStep where
  | openRun (run : Nat) (config : SourceConfig) (jobId : Option Nat) (now : Instant)
  | ingest (run : Nat) (item : CollectedItem)
  | closeRun (run : Nat) (ending : Except PyError Unit) (now : Instant)
  | abort (run : Nat)
  | delete (leadId : Nat) (suppress : Bool)

/-- Keys are handed out by sequences, which no transaction rolls back. -/
def Store.reserve (st view : Store) : Store where
  sources := st.sources.reserve view.sources.next
  records := st.records.reserve view.records.next
  leads := st.leads.reserve view.leads.next
  merges := st.merges.reserve view.merges.next
  suppressions := st.suppressions
  jobs := st.jobs.reserve view.jobs.next
  results := st.results.reserve view.results.next

namespace Traffic

/-- A run sees what is committed by now, under its own writes. -/
def session (q : Traffic) (r : OpenRun) : Session Store Write RunStats :=
  ⟨Session.replay r.log q.committed, r.log, false, none, r.stats⟩

def run? (q : Traffic) (run : Nat) : Option OpenRun := q.runs.lookup run

def others (q : Traffic) (run : Nat) : List (Nat × OpenRun) := q.runs.filter fun p => p.1 != run

def step (q : Traffic) : TrafficStep → Traffic
  | .openRun run config jobId now =>
      match q.run? run with
      | some _ => q
      | none =>
          match openRun config jobId now q.committed.session with
          | (.ok (source, job, suppressions), s) =>
              { committed := q.committed.reserve s.view
                runs := (run, ⟨config, source, job, suppressions, s.log, s.notes⟩) ::
                  q.others run }
          | (.error _, _) => q
  | .ingest run item =>
      match q.run? run with
      | none => q
      | some r =>
          let result := processItem env r.source r.config r.job.id r.suppressions item
            (q.session r)
          let s := match result.1 with
            | .ok _ => result.2
            | .error _ => result.2.note RunStats.countError
          { committed := q.committed.reserve s.view
            runs := (run, { r with log := s.log, stats := s.notes }) :: q.others run }
  | .closeRun run ending now =>
      match q.run? run with
      | none => q
      | some r =>
          match closeRun r.job ending now (q.session r) with
          | (.ok _, s) =>
              { committed := Session.replay s.log q.committed, runs := q.others run }
          | (.error _, _) => { q with runs := q.others run }
  | .abort run => { q with runs := q.others run }
  | .delete leadId suppress =>
      { q with
        committed := (deleteLeadRoute env q.committed leadId suppress).getD q.committed }

/-- What the deletion of a lead puts on the suppression list. -/
def suppressedBy (lead : Lead) : Forbidden := fun kind v =>
  ∃ w, lead.contact kind = some w ∧ w ≠ [] ∧ v = normalizeValue env kind w

def listed (st : Store) : Forbidden := fun kind v => v ∈ SuppressionRepository.values st kind

/-- A deletion finds what it suppresses nowhere but at its own lead, and a record that carries
a suppressed value is ingested by a run that has loaded a suppression of it. -/
def Heeds (q : Traffic) : TrafficStep → Prop
  | .delete leadId true =>
      ∀ lead, q.committed.leads.find? leadId = some lead →
        (∀ r ∈ q.committed.records, r.leadId ≠ some leadId →
          r.normalized.Free (suppressedBy env lead)) ∧
        (∀ l ∈ q.committed.leads, l.id ≠ leadId → l.toLeadPayload.Free (suppressedBy env lead)) ∧
        ∀ p ∈ q.runs, ∀ w ∈ p.2.log, w.Free (suppressedBy env lead)
  | .ingest run (.record raw) =>
      ∀ r, q.run? run = some r →
        (normalizeRecord env raw r.config.region).Free (listed q.committed) ∨
          (r.suppressions.blocks (normalizeRecord env raw r.config.region).toLeadPayload).isSome
  | _ => True

/-- Forbidden values are listed, and neither stored nor about to be. -/
structure Erased (bad : Forbidden) (q : Traffic) : Prop where
  listed : ∀ kind v, bad kind v → listed q.committed kind v
  stored : q.committed.Free bad
  pending : ∀ p ∈ q.runs, ∀ w ∈ p.2.log, w.Free bad

variable {env} {bad : Forbidden} {q : Traffic}

theorem values_replay (ws : List Write) (st : Store) (kind : SuppressionKind) :
    SuppressionRepository.values (Session.replay ws st) kind =
      SuppressionRepository.values st kind := by
  have hsuppressions : (Session.replay ws st).suppressions = st.suppressions :=
    Txn.replay_reads (f := Store.suppressions) (fun w _ => w.apply_suppressions) st
  simp only [SuppressionRepository.values, hsuppressions]

theorem Erased.log_free (h : q.Erased bad) {run : Nat} {r : OpenRun} (hr : q.run? run = some r) :
    ∀ w ∈ r.log, w.Free bad := by
  obtain ⟨pre, post, hsplit, -⟩ := List.lookup_eq_some_iff.mp hr
  exact h.pending (run, r) (by rw [hsplit]; simp)

theorem Erased.view (h : q.Erased bad) {run : Nat} {r : OpenRun} (hr : q.run? run = some r) :
    (q.session r).view.Free bad :=
  h.stored.replay (h.log_free hr)

theorem free_reserve {st : Store} (h : st.Free bad) (view : Store) : (st.reserve view).Free bad :=
  ⟨h.records, h.leads⟩

theorem Erased.others (h : q.Erased bad) (run : Nat) :
    ∀ p ∈ q.others run, ∀ w ∈ p.2.log, w.Free bad :=
  fun p hp => h.pending p (List.mem_of_mem_filter hp)

theorem Erased.replaced (h : q.Erased bad) (run : Nat) {next : OpenRun}
    (hnext : ∀ w ∈ next.log, w.Free bad) :
    ∀ p ∈ (run, next) :: q.others run, ∀ w ∈ p.2.log, w.Free bad := by
  intro p hp
  rcases List.mem_cons.mp hp with rfl | hp
  · exact hnext
  · exact h.others run p hp

theorem Erased.openRun (h : q.Erased bad) (run : Nat) (config : SourceConfig)
    (jobId : Option Nat) (now : Instant) :
    (q.step env (.openRun run config jobId now)).Erased bad := by
  simp only [Traffic.step]
  split
  · exact h
  · obtain ⟨ws, hlog, -, hws⟩ :=
      (openRun_composed config jobId now).writes q.committed.session
    rcases hrun : LeadPipe.openRun config jobId now q.committed.session with
      ⟨e | ⟨source, job, suppressions⟩, s⟩ <;> rw [hrun] at hlog
    · exact h
    · refine ⟨h.listed, free_reserve h.stored _, h.replaced run ?_⟩
      intro w hw
      have hmem : w ∈ ws := by
        rw [hlog] at hw
        exact hw
      exact (hws w hmem).free

theorem Erased.ingest (h : q.Erased bad) (run : Nat) (item : CollectedItem)
    (hl : q.Heeds env (.ingest run item)) : (q.step env (.ingest run item)).Erased bad := by
  simp only [Traffic.step]
  cases hrun : q.run? run with
  | none => exact h
  | some r =>
      have hitem : ∃ ws, (processItem env r.source r.config r.job.id r.suppressions item
          (q.session r)).2.log = r.log ++ ws ∧ ∀ w ∈ ws, w.Free bad := by
        cases item with
        | error message => exact ⟨[], by simp [processItem, session, Session.note], by simp⟩
        | record raw =>
            -- a value of the record that is forbidden is listed, so the run has loaded it
            have hcarried := hl r hrun
            refine ingest_free (s := q.session r) ⟨rfl, rfl⟩ (h.view hrun) ?_ rfl
            refine hcarried.imp_left fun hfree kind v hv hbad => ?_
            exact hfree kind v hv (h.listed kind v hbad)
      obtain ⟨ws, hlog, hws⟩ := hitem
      refine ⟨h.listed, free_reserve h.stored _, h.replaced run ?_⟩
      intro w hw
      have hmem : w ∈ r.log ++ ws := by
        rw [← hlog]
        split at hw <;> exact hw
      rcases List.mem_append.mp hmem with hold | hnew
      · exact h.log_free hrun w hold
      · exact hws w hnew

theorem Erased.closeRun (h : q.Erased bad) (run : Nat) (ending : Except PyError Unit)
    (now : Instant) : (q.step env (.closeRun run ending now)).Erased bad := by
  cases hrun : q.run? run with
  | none =>
      simp only [Traffic.step, hrun]
      exact h
  | some r =>
      simp only [Traffic.step, hrun]
      obtain ⟨ws, hlog, -, hws⟩ := (closeRun_composed r.job ending now).writes (q.session r)
      rcases hclose : LeadPipe.closeRun r.job ending now (q.session r) with ⟨e | a, s⟩ <;>
        rw [hclose] at hlog
      · exact ⟨h.listed, h.stored, h.others run⟩
      · refine ⟨?_, ?_, h.others run⟩
        · intro kind v hbad
          unfold Traffic.listed
          rw [values_replay]
          exact h.listed kind v hbad
        · refine h.stored.replay fun w hw => ?_
          rw [hlog] at hw
          rcases List.mem_append.mp hw with hold | hnew
          · exact h.log_free hrun w hold
          · exact (hws w hnew).free

theorem values_addForLead_mono {st : Store} {email domain : Option Text} {reason v : Text}
    {kind : SuppressionKind} (h : v ∈ SuppressionRepository.values st kind) :
    v ∈ SuppressionRepository.values
      (SuppressionRepository.addForLead env st email domain reason) kind :=
  (SuppressionRepository.mem_values_addForLead env).mpr (.inl h)

theorem Erased.delete (h : q.Erased bad) (leadId : Nat) (suppress : Bool) :
    (q.step env (.delete leadId suppress)).Erased bad := by
  have hdeleted (st : Store) (hst : st.Free bad)
      (hlisted : ∀ kind v, bad kind v → Traffic.listed st kind v) :
      (⟨st.deleteLead leadId, q.runs⟩ : Traffic).Erased bad := by
    refine ⟨hlisted, ⟨fun r hr => ?_, fun l hl => ?_⟩, h.pending⟩
    · exact hst.records r (Table.mem_erase.mp hr).1
    · exact hst.leads l (Table.mem_erase.mp hl).1
  simp only [Traffic.step, deleteLeadRoute]
  cases q.committed.leads.find? leadId with
  | none => exact h
  | some lead =>
      cases suppress with
      | false => exact hdeleted q.committed h.stored h.listed
      | true =>
          obtain ⟨suppressions, hadd⟩ := SuppressionRepository.addForLead_keeps env q.committed
            lead.email lead.websiteDomain ("lead ".toList ++ Text.ofNat leadId ++ " deleted".toList)
          refine hdeleted _ ?_ fun kind v hbad => values_addForLead_mono (h.listed kind v hbad)
          rw [hadd]
          exact ⟨h.stored.records, h.stored.leads⟩

theorem Erased.step (h : q.Erased bad) {l : TrafficStep} (hl : q.Heeds env l) :
    (q.step env l).Erased bad := by
  cases l with
  | openRun run config jobId now => exact h.openRun run config jobId now
  | ingest run item => exact h.ingest run item hl
  | closeRun run ending now => exact h.closeRun run ending now
  | abort run => exact ⟨h.listed, h.stored, h.others run⟩
  | delete leadId suppress => exact h.delete leadId suppress

theorem erased_delete {leadId : Nat} {lead : Lead}
    (hlead : q.committed.leads.find? leadId = some lead)
    (hl : q.Heeds env (.delete leadId true)) :
    (q.step env (.delete leadId true)).Erased (suppressedBy env lead) := by
  obtain ⟨hrecords, hleads, hpending⟩ := hl lead hlead
  obtain ⟨suppressions, hadd⟩ := SuppressionRepository.addForLead_keeps env q.committed
    lead.email lead.websiteDomain ("lead ".toList ++ Text.ofNat leadId ++ " deleted".toList)
  simp only [Traffic.step, deleteLeadRoute, hlead, Option.map_some, if_true, Option.getD_some]
  refine ⟨?_, ⟨?_, ?_⟩, hpending⟩
  · rintro kind v ⟨w, hw, hne, rfl⟩
    refine (SuppressionRepository.mem_values_addForLead env).mpr (.inr ?_)
    cases kind with
    | email => exact .inl ⟨rfl, w, hw, hne, rfl⟩
    | domain => exact .inr ⟨rfl, w, hw, hne, rfl⟩
  · intro r hr
    rw [hadd] at hr
    obtain ⟨hmem, howned⟩ := Table.mem_erase.mp hr
    exact hrecords r hmem (by simpa using howned)
  · intro l hl
    rw [hadd] at hl
    obtain ⟨hmem, hother⟩ := Table.mem_erase.mp hl
    exact hleads l hmem (by simpa using hother)

end Traffic

open Traffic

theorem erasure_holds_in_traffic {q : Traffic} {labels : List TrafficStep}
    (h : Always (Traffic.step env) (Heeds env) q labels) {pre post : List TrafficStep}
    {leadId : Nat} {lead : Lead} (hsplit : labels = pre ++ .delete leadId true :: post)
    (hlead : (execute (Traffic.step env) q pre).committed.leads.find? leadId = some lead)
    {mid : List TrafficStep} (hmid : mid <+: post) {kind : SuppressionKind} {w : Text}
    (hw : lead.contact kind = some w) (hne : w ≠ []) :
    let st := (execute (Traffic.step env) q (pre ++ .delete leadId true :: mid)).committed
    (∀ r ∈ st.records, r.normalized.contact kind ≠ some (normalizeValue env kind w)) ∧
      ∀ l ∈ st.leads, l.contact kind ≠ some (normalizeValue env kind w) := by
  intro st
  rw [hsplit] at h
  obtain ⟨-, hdelete, hrest⟩ := always_append.mp h
  have hgone := erased_delete hlead hdelete
  have hlater := (hrest.of_prefix hmid).invariant hgone fun q l hq hl => hq.step hl
  have hst : st = (execute (Traffic.step env)
      ((execute (Traffic.step env) q pre).step env (.delete leadId true)) mid).committed := by
    change (execute (Traffic.step env) q (pre ++ .delete leadId true :: mid)).committed = _
    rw [execute_append, execute_cons]
  have hbad : suppressedBy env lead kind (normalizeValue env kind w) := ⟨w, hw, hne, rfl⟩
  rw [hst]
  constructor
  · intro r hr hv
    exact hlater.stored.records r hr kind _ hv hbad
  · intro l hl hv
    exact hlater.stored.leads l hl kind _ hv hbad

namespace Traffic

def empty : Traffic := ⟨.empty, []⟩

def opens (run : Nat) (now : Instant) : TrafficStep :=
  .openRun run ⟨"csv".toList, "csv".toList, true, 0, none, []⟩ none now

def ingests (run : Nat) (now : Instant) : TrafficStep :=
  .ingest run (.record (IngestCall.plain .csv now [("email", "a@x.fi")]).raw)

/-- A company is collected and erased, and then collected again. -/
def revisited : List TrafficStep :=
  [opens 1 0, ingests 1 0, .closeRun 1 (.ok ()) 0, .delete 1 true, opens 2 5, ingests 2 5,
    .closeRun 2 (.ok ()) 5]

/-- It is collected again by a run that was open when it was erased. -/
def overlapped : List TrafficStep :=
  [opens 1 0, ingests 1 0, .closeRun 1 (.ok ()) 0, opens 2 5, .delete 1 true, ingests 2 5,
    .closeRun 2 (.ok ()) 5]

theorem revisited_heeds : Always (step .ascii) (Heeds .ascii) empty revisited := by
  refine ⟨trivial, ?_, trivial, ?_, trivial, ?_, trivial, trivial⟩
  · intro r hr
    left
    intro kind v hv hlisted
    have hnone : SuppressionRepository.values (execute (step .ascii) empty [opens 1 0]).committed
        kind = [] := by cases kind <;> decide +kernel
    have hmem : v ∈ SuppressionRepository.values
        (execute (step .ascii) empty [opens 1 0]).committed kind := hlisted
    rw [hnone] at hmem
    cases hmem
  · intro lead hlead
    have hrecords : ∀ r ∈ (execute (step .ascii) empty (revisited.take 3)).committed.records,
        r.leadId = some 1 := by decide +kernel
    have hleads : ∀ l ∈ (execute (step .ascii) empty (revisited.take 3)).committed.leads,
        l.id = 1 := by decide +kernel
    have hruns : (execute (step .ascii) empty (revisited.take 3)).runs.isEmpty = true := by
      decide +kernel
    refine ⟨fun r hr hother => absurd (hrecords r hr) hother,
      fun l hl hother => absurd (hleads l hl) hother, fun p hp => ?_⟩
    have hmem : p ∈ (execute (step .ascii) empty (revisited.take 3)).runs := hp
    rw [List.isEmpty_iff.mp hruns] at hmem
    cases hmem
  · intro r hr
    right
    have hblocks : ((execute (step .ascii) empty (revisited.take 5)).run? 2).all (fun r =>
        (r.suppressions.blocks (normalizeRecord .ascii
          (IngestCall.plain .csv 5 [("email", "a@x.fi")]).raw
          r.config.region).toLeadPayload).isSome) = true := by decide +kernel
    have hrun : (execute (step .ascii) empty (revisited.take 5)).run? 2 = some r := hr
    rw [hrun] at hblocks
    exact hblocks

end Traffic

theorem erasure_holds_in_traffic_recollected :
    (∀ r ∈ (execute (Traffic.step .ascii) .empty revisited).committed.records,
      r.normalized.contact .email ≠ some (normalizeValue .ascii .email "a@x.fi".toList)) ∧
      ∀ l ∈ (execute (Traffic.step .ascii) .empty revisited).committed.leads,
        l.contact .email ≠ some (normalizeValue .ascii .email "a@x.fi".toList) := by
  have hlead : ∃ lead, (execute (Traffic.step .ascii) .empty
      (revisited.take 3)).committed.leads.find? 1 = some lead ∧
        lead.contact .email = some "a@x.fi".toList := by
    refine ⟨((execute (Traffic.step .ascii) .empty
      (revisited.take 3)).committed.leads.find? 1).get (by decide +kernel), ?_, ?_⟩
    · simp
    · decide +kernel
  obtain ⟨lead, hfound, hemail⟩ := hlead
  exact erasure_holds_in_traffic .ascii revisited_heeds rfl hfound List.prefix_rfl hemail
    (by decide)

/-- The second run has loaded an empty list, and brings the erased address back. -/
theorem erasure_lost_in_traffic :
    ((execute (Traffic.step .ascii) .empty (overlapped.take 4)).committed.leads.find? 1).bind
        (fun lead => lead.contact .email) = some "a@x.fi".toList ∧
      ¬ ∀ r ∈ (execute (Traffic.step .ascii) .empty overlapped).committed.records,
        r.normalized.contact .email ≠ some (normalizeValue .ascii .email "a@x.fi".toList) := by
  decide +kernel

end LeadPipe
