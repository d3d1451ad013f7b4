import LeadPipe.Pipeline.Anchors
import LeadPipe.Pipeline.Statements

/-!
# A collection from its first statement to its commit

What a collection does to the records and the leads is what its loop does. The loop goes on after
a record that raises, and it counts what it passes.
-/

namespace LeadPipe

open Framework

variable (env : Platform)

/-- `run_collection` of a source whose adapter yields these records and ends. -/
structure CollectionRun where
  config : SourceConfig
  jobId : Option Nat
  records : List RawRecord
  startedAt : Instant
  finishedAt : Instant

/-- One turn of the loop. -/
def attempt (call : IngestCall) (s : Session Store Write RunStats) : Session Store Write RunStats :=
  match ingest env call s with
  | (.ok _, s') => s'
  | (.error _, s') => s'.note RunStats.countError

def attempts (calls : List IngestCall) (s : Session Store Write RunStats) :
    Session Store Write RunStats :=
  calls.foldl (fun s call => attempt env call s) s

namespace CollectionRun

variable (run : CollectionRun)

def program : Db Unit :=
  runCollection env run.config run.jobId
    ⟨run.records.map fun raw => (.record raw, none), .ok ()⟩ run.startedAt run.finishedAt

/-- The tables once the collection is committed, if it is. -/
def collect (st : Store) : Option Store := (Txn.commit (run.program env) st.session).toOption

/-- What `run_collection` returns. -/
def stats (st : Store) : RunStats := (run.program env st.session).2.notes

def call (source : Source) (job : CollectionJob) (suppressions : SuppressionList)
    (raw : RawRecord) : IngestCall where
  source := source
  priority := run.config.priority
  raw := raw
  region := run.config.region
  jobId := job.id
  suppressions := suppressions

def collectAll : Store → List CollectionRun → Option Store
  | st, [] => some st
  | st, run :: runs => (run.collect env st).bind fun st' => collectAll st' runs

end CollectionRun

section Loop

variable {env} {s : Session Store Write RunStats} {call : IngestCall}

open Store

theorem attempt_outcome (env : Platform) (h : s.Healthy) (call : IngestCall) :
    (attempt env call s).Healthy ∧ Outcome env s.view call (attempt env call s).view := by
  have hingest := ingest_outcome env call h
  unfold attempt
  rcases hrun : ingest env call s with ⟨e | a, s'⟩
  · rw [hrun] at hingest
    exact ⟨hingest.1.note _, hingest.2⟩
  · rw [hrun] at hingest
    exact hingest

private theorem started_quiet (env : Platform) (call : IngestCall) :
    (call.started env).errors = 0 ∧ (call.started env).suppressed = 0 := by
  unfold IngestCall.started
  cases validateLead env (call.lead env) with
  | error e => exact ⟨rfl, rfl⟩
  | ok validation =>
      dsimp only
      cases validation.status <;> exact ⟨rfl, rfl⟩

private theorem counted_quiet (env : Platform) (st : Store) (call : IngestCall) :
    (st.counted env call).errors = 0 ∧
      (st.counted env call).suppressed = if call.blocked env then 1 else 0 := by
  have hstarted := started_quiet env call
  have hdecided (d : Decision) : d.counted.errors = 0 ∧ d.counted.suppressed = 0 := by
    cases d <;> exact ⟨rfl, rfl⟩
  have hflagged : (st.flagged env call).errors = 0 ∧ (st.flagged env call).suppressed = 0 := by
    unfold flagged
    split
    · split <;> exact ⟨rfl, rfl⟩
    · exact ⟨rfl, rfl⟩
  unfold counted
  split
  · exact ⟨rfl, rfl⟩
  · change (call.started env).errors + ((st.decision env call).counted.errors +
        (st.flagged env call).errors) = 0 ∧
      (call.started env).suppressed + ((st.decision env call).counted.suppressed +
        (st.flagged env call).suppressed) = 0
    have hdecided := hdecided (st.decision env call)
    omega

/-- A turn that counts no error and no suppressed record settles its record. -/
theorem attempt_counts (env : Platform) (h : s.Healthy) (call : IngestCall) :
    s.notes.errors ≤ (attempt env call s).notes.errors ∧
      s.notes.suppressed ≤ (attempt env call s).notes.suppressed ∧
      ((attempt env call s).notes.errors = s.notes.errors →
        (attempt env call s).notes.suppressed = s.notes.suppressed →
          ∃ validation row, Settles env s.view call validation row (attempt env call s).view) := by
  unfold attempt
  rcases hrun : ingest env call s with ⟨e | a, s'⟩
  · have hnotes := ingest_raises_counted env h hrun
    have hstarted := started_quiet env call
    have herrors : s'.notes.errors = s.notes.errors + (call.started env).errors := by
      rw [hnotes]
      rfl
    have hsuppressed : s'.notes.suppressed =
        s.notes.suppressed + (call.started env).suppressed := by
      rw [hnotes]
      rfl
    have hraised : (s'.note RunStats.countError).notes.errors = s'.notes.errors + 1 := rfl
    have hsame : (s'.note RunStats.countError).notes.suppressed = s'.notes.suppressed := rfl
    dsimp only
    refine ⟨by omega, by omega, fun hclean => ?_⟩
    omega
  · have hnotes := ingest_completes_counted env h hrun
    have hcounted := counted_quiet env s.view call
    have herrors : s'.notes.errors = s.notes.errors + (s.view.counted env call).errors := by
      rw [hnotes]
      rfl
    have hsuppressed : s'.notes.suppressed =
        s.notes.suppressed + (s.view.counted env call).suppressed := by
      rw [hnotes]
      rfl
    dsimp only
    refine ⟨by omega, by omega, fun _ hclean => ?_⟩
    have hopen : call.blocked env = false := by
      cases hb : call.blocked env with
      | false => rfl
      | true =>
          rw [hb, if_pos rfl] at hcounted
          omega
    obtain ⟨ws, hi, hview, -⟩ := ingest_completes env h hrun
    rw [hview]
    exact hi.settles hopen

theorem attempts_outcome (env : Platform) {I : Store → Prop} (h : s.Healthy) (hs : I s.view)
    (hstep : ∀ st call st', I st → Outcome env st call st' → I st') (calls : List IngestCall) :
    (attempts env calls s).Healthy ∧ I (attempts env calls s).view := by
  induction calls generalizing s with
  | nil => exact ⟨h, hs⟩
  | cons call calls ih =>
      obtain ⟨hhealthy, houtcome⟩ := attempt_outcome env h call
      exact ih hhealthy (hstep s.view call _ hs houtcome)

theorem attempts_counts (env : Platform) (h : s.Healthy) (calls : List IngestCall) :
    s.notes.errors ≤ (attempts env calls s).notes.errors ∧
      s.notes.suppressed ≤ (attempts env calls s).notes.suppressed := by
  induction calls generalizing s with
  | nil => exact ⟨Nat.le_refl _, Nat.le_refl _⟩
  | cons call calls ih =>
      obtain ⟨herrors, hsuppressed, -⟩ := attempt_counts env h call
      obtain ⟨herrors', hsuppressed'⟩ := ih (attempt_outcome env h call).1
      exact ⟨herrors.trans herrors', hsuppressed.trans hsuppressed'⟩

theorem attemptEach_records (env : Platform) (config : SourceConfig) (source : Source) (jobId : Nat)
    (suppressions : SuppressionList) (h : s.Healthy) (records : List RawRecord) :
    Txn.attemptEach (processItem env source config jobId suppressions) RunStats.countError
        (records.map fun raw => (.record raw, none)) s =
      (.ok (), attempts env (records.map fun raw =>
        ⟨source, config.priority, raw, config.region, jobId, suppressions⟩) s) := by
  induction records generalizing s with
  | nil => rfl
  | cons raw records ih =>
      have hingest := ingest_outcome env
        ⟨source, config.priority, raw, config.region, jobId, suppressions⟩ h
      have hnext := (attempt_outcome env h
        ⟨source, config.priority, raw, config.region, jobId, suppressions⟩).1
      have hfirst : Txn.armed none
          (processItem env source config jobId suppressions (.record raw)) s =
            ingest env ⟨source, config.priority, raw, config.region, jobId, suppressions⟩ s :=
        Txn.armed_healthy h hingest.1
      simp only [List.map_cons, Txn.attemptEach, attempts, List.foldl_cons]
      rw [hfirst]
      unfold attempt at hnext ⊢
      rcases hrun : ingest env ⟨source, config.priority, raw, config.region, jobId,
        suppressions⟩ s with ⟨e | a, s'⟩
      · rw [hrun] at hnext
        exact ih hnext
      · rw [hrun] at hnext
        exact ih hnext

end Loop

namespace SourceRepository

theorem Upserts.congr {st st₁ st₂ : Store} {name : Text} {source : Source}
    (h : Upserts st name source st₁) (hsources : st₂.sources = st₁.sources) :
    Upserts st name source st₂ where
  named := by
    unfold Named
    rw [hsources]
    exact h.named
  found := by
    rw [hsources]
    exact h.found
  kept := by
    rw [hsources]
    exact h.kept

end SourceRepository

namespace CollectionRun

variable {env} {run : CollectionRun} {st st' : Store} {s : Session Store Write RunStats}

/-- A collection that commits: the row of its source is there before the loop, the loop starts
from the records and the leads as they are, and what it leaves of them is committed. -/
structure Collects (env : Platform) (run : CollectionRun) (st : Store) (source : Source)
    (calls : List IngestCall) (s : Session Store Write RunStats) (st' : Store) : Prop where
  healthy : s.Healthy
  unnoted : s.notes = {}
  upserts : SourceRepository.Upserts st run.config.name source s.view
  records : s.view.records = st.records
  leads : s.view.leads = st.leads
  merges : s.view.merges = st.merges
  calls_eq : ∃ job suppressions, calls = run.records.map (run.call source job suppressions)
  sources' : st'.sources = (attempts env calls s).view.sources
  records' : st'.records = (attempts env calls s).view.records
  leads' : st'.leads = (attempts env calls s).view.leads
  merges' : st'.merges = (attempts env calls s).view.merges
  stats : run.stats env st = (attempts env calls s).notes

/-- The run was opened, and what its loop left of the tables is committed. -/
structure Opened (env : Platform) (run : CollectionRun) (st : Store) (source : Source)
    (job : CollectionJob) (suppressions : SuppressionList) (s : Session Store Write RunStats)
    (st' : Store) : Prop where
  opened : openRun run.config run.jobId run.startedAt st.session =
    (.ok (source, job, suppressions), s)
  healthy : s.Healthy
  unnoted : s.notes = {}
  committed : ∃ looped jobs results, st' = { looped with jobs, results } ∧
    looped = (attempts env (run.records.map (run.call source job suppressions)) s).view
  stats : run.stats env st =
    (attempts env (run.records.map (run.call source job suppressions)) s).notes

theorem collect_opened (h : run.collect env st = some st') :
    ∃ source job suppressions s, Opened env run st source job suppressions s st' := by
  have hopen : st.session.Healthy := ⟨rfl, rfl⟩
  obtain ⟨source, ws, hup, hws⟩ := SourceRepository.upsert_run hopen run.config.name
    run.config.type run.config.priority run.config.enabled run.config.options
  unfold collect at h
  rcases hrun : openRun run.config run.jobId run.startedAt st.session with ⟨e | opened, s₀⟩
  · have hprogram : run.program env st.session = (.error e, s₀) := Txn.bind_error hrun
    unfold Txn.commit at h
    rw [hprogram] at h
    cases h
  · obtain ⟨source', job, suppressions⟩ := opened
    obtain ⟨-, -, vs, hs₀, -⟩ := openRun_opens hopen hup hrun
    have hhealthy : s₀.Healthy := hs₀ ▸ hopen.emit _
    set calls := run.records.map (run.call source' job suppressions) with hcalls
    have hloop := attemptEach_records env run.config source' job.id suppressions
      hhealthy run.records
    have hlooped : (attempts env calls s₀).Healthy :=
      (attempts_outcome env hhealthy trivial (fun _ _ _ _ _ => trivial) calls).1
    obtain ⟨s', jobs, results, hclose, hclosed, hnotes, hview⟩ :=
      closeRun_closes hlooped job run.finishedAt
    have hprogram : run.program env st.session = (.ok (), s') := by
      unfold program runCollection
      rw [Txn.bind_ok hrun]
      dsimp only
      rw [Txn.bind_ok hloop]
      exact hclose
    unfold Txn.commit at h
    rw [hprogram] at h
    simp only [hclosed.valid, Bool.false_eq_true, if_false, Except.toOption,
      Option.some.injEq] at h
    refine ⟨source', job, suppressions, s₀, hrun, hhealthy, ?_, ⟨_, jobs, results, ?_, rfl⟩, ?_⟩
    · rw [hs₀]
      rfl
    · rw [← h, hview]
    · unfold stats
      rw [hprogram]
      exact hnotes

theorem Opened.view {source : Source} {job : CollectionJob} {suppressions : SuppressionList}
    (ho : Opened env run st source job suppressions s st') {upserted : Source} {ws : List Write}
    (hup : SourceRepository.upsert run.config.name run.config.type run.config.priority
      run.config.enabled run.config.options st.session = (.ok upserted, st.session.emit ws))
    (hws : ∀ w ∈ ws, w.OfSources) :
    source = upserted ∧ suppressions = SuppressionRepository.list st ∧
      ∃ jobs results, s.view =
        { st with sources := (Session.replay ws st).sources, jobs, results } := by
  obtain ⟨hsource, hsuppressions, vs, hs, hvs⟩ := openRun_opens ⟨rfl, rfl⟩ hup ho.opened
  obtain ⟨sources, hsources⟩ := Store.replay_sources hws st
  obtain ⟨jobs, results, hjobs⟩ := Store.replay_jobs hvs { st with sources }
  have hview : s.view = { st with sources, jobs, results } := by
    rw [hs, Session.emit_view, Session.replay_append]
    change Session.replay vs (Session.replay ws st) = _
    rw [hsources, hjobs]
  refine ⟨hsource, ?_, jobs, results, ?_⟩
  · rw [hsuppressions, hview]
    rfl
  · rw [hview, hsources]

theorem collect_collects (hnamed : SourceRepository.Named st)
    (h : run.collect env st = some st') :
    ∃ source calls s, Collects env run st source calls s st' := by
  obtain ⟨source, ws, hup, hws, hups⟩ := SourceRepository.upsert_upserts
    (s := st.session) ⟨rfl, rfl⟩ hnamed run.config.name run.config.type run.config.priority
    run.config.enabled run.config.options
  obtain ⟨source', job, suppressions, s, ho⟩ := collect_opened h
  obtain ⟨rfl, -, jobs, results, hview⟩ := ho.view hup hws
  obtain ⟨looped, jobs', results', hcommitted, hlooped⟩ := ho.committed
  refine ⟨source', _, s, ho.healthy, ho.unnoted, ?_, ?_, ?_, ?_, ⟨job, suppressions, rfl⟩, ?_, ?_,
    ?_, ?_, ho.stats⟩
  · refine hups.congr ?_
    rw [hview]
    rfl
  · rw [hview]
  · rw [hview]
  · rw [hview]
  · rw [hcommitted, hlooped]
  · rw [hcommitted, hlooped]
  · rw [hcommitted, hlooped]
  · rw [hcommitted, hlooped]

end CollectionRun

end LeadPipe
