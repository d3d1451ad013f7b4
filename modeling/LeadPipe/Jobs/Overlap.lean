import LeadPipe.Jobs.Heartbeat
import LeadPipe.Jobs.Service
import LeadPipe.Pipeline.Keys

/-!
# A tick during a run

The transaction of a collection, with the heartbeat of its worker, and a tick of the scheduler
for the same source. A new row of `source_records` refers to the source and so locks its key
until the run commits; the tick wants to lock the row of the source for itself.
-/

namespace LeadPipe

open Framework

variable (env : Platform)

def Shift.log (s : Shift) : List Write :=
  match s.run with
  | .ingesting _ _ _ session _ => session.log
  | .closed session => session.log
  | _ => []

def Shift.locks (s : Shift) : List SourceLock := s.log.filterMap Write.sourceLock

def Shift.isOpen (s : Shift) : Bool :=
  match s.run with
  | .ingesting .. | .closed _ => true
  | _ => false

structure Overlap where
  shift : Shift
  tick : Option Tick

inductive OverlapStep where
  | run (l : ShiftStep)
  | fire (now : Instant)
  | statement
  | commit
  deriving DecidableEq

namespace Overlap

open Worker

def start (st : Store) : Overlap := ⟨.start st, none⟩

/-- The next statement of the tick waits for a lock of the run. -/
def blocked (s : Overlap) : Bool :=
  (s.tick.bind Tick.asks).any fun asked => s.shift.locks.any fun held => held.collides asked

/-- The step would take the run a lock that collides with one of the tick. -/
def waits (s : Overlap) (shift : Shift) : Bool :=
  s.tick.any fun t => t.locks.any fun held => shift.locks.any fun asked => held.collides asked

def step (task : Task) (collection : Collection) (s : Overlap) : OverlapStep → Overlap
  | .run l =>
      let shift := Shift.step env task collection s.shift l
      if s.waits shift then s else { s with shift }
  | .fire now =>
      match s.tick with
      | some _ => s
      | none =>
          -- the tick begins while the job is `RUNNING`
          if s.shift.beats task.job.id then { s with tick := some (.start task.config now) } else s
  | .statement =>
      match s.tick with
      | none => s
      | some t =>
          if s.blocked then s
          else
            let r := t.advance s.shift.committed
            ⟨{ s.shift with committed := r.1 }, some r.2⟩
  | .commit =>
      match s.tick with
      | none => s
      | some t =>
          match t.phase with
          | .finished _ _ =>
              ⟨{ s.shift with committed := Session.replay t.log s.shift.committed }, none⟩
          | _ => s

/-- The tick does not wait for the run; going on while the run is open, it ends without a job. -/
structure Skips (task : Task) (collection : Collection) (s : Overlap) : Prop where
  free : s.blocked = false
  ends : s.shift.isOpen = true → ∀ t, s.tick = some t → ∃ n t' source,
    (execute (step env task collection) s (List.replicate n .statement)).tick = some t' ∧
      t'.phase = .finished source none

/-- The call of `_ingest` for a record of the run. -/
def call (task : Task) (source : Source) (suppressions : SuppressionList) (raw : RawRecord) :
    IngestCall :=
  ⟨source, task.config.priority, raw, task.config.region, task.job.id, suppressions⟩

/-- The run would insert a source record for the item: one that is not suppressed, is graded
without raising and has no row. -/
def inserts (task : Task) (source : Source) (suppressions : SuppressionList) (st : Store) :
    CollectedItem → Bool
  | .error _ => false
  | .record raw =>
      let call := call task source suppressions raw
      !call.blocked env && (validateLead env (call.lead env)).isOk && !st.knows env call

variable {env} {task : Task} {source : Source} {suppressions : SuppressionList}

theorem inserts_congr {st st' : Store}
    (h : ∀ sourceId key, st'.HasKey sourceId key ↔ st.HasKey sourceId key)
    (item : CollectedItem) :
    inserts env task source suppressions st' item = inserts env task source suppressions st item := by
  cases item with
  | error => rfl
  | record raw => simp only [inserts, Store.knows_congr h]

section Items

variable {s : Session Store Write RunStats} {st : Store}

theorem linkWrites_locks {st : Store} {leadId recordId : Nat} {rule : Text} {confidence : ℚ}
    {needsReview claim : Bool} {w : Write}
    (hw : w ∈ st.linkWrites leadId recordId rule confidence needsReview claim) :
    w.sourceLock = none := by
  unfold Store.linkWrites at hw
  split at hw
  · obtain rfl := List.mem_singleton.mp hw
    rfl
  · rcases List.mem_append.mp hw with hw | hw
    · split at hw
      · obtain rfl := List.mem_singleton.mp hw
        rfl
      · cases hw
    · obtain rfl := List.mem_singleton.mp hw
      rfl

theorem places_locks {call : IngestCall} {validation : LeadValidation} {ws : List Write}
    (hp : Places env st call validation ws) {w : Write} (hw : w ∈ ws) : w.sourceLock = none := by
  cases hp with
  | join | found =>
      rcases List.mem_cons.mp hw with rfl | hw
      · rfl
      · exact linkWrites_locks hw
  | refresh =>
      obtain rfl := List.mem_singleton.mp hw
      rfl

theorem flagWrites_locks {best : Option (Lead × MatchResult)} {recordId : Nat} {w : Write}
    (hw : w ∈ st.flagWrites best recordId) : w.sourceLock = none := by
  unfold Store.flagWrites at hw
  split at hw
  · split at hw
    · cases hw
    · exact linkWrites_locks hw
  · cases hw

theorem upsertWrite_locks {call : IngestCall} (validation : LeadValidation)
    (hknown : st.knows env call = true) :
    (st.upsertWrite env call validation).sourceLock = none := by
  unfold Store.knows at hknown
  unfold Store.upsertWrite
  cases hr : st.recordOf env call with
  | none =>
      rw [hr] at hknown
      cases hknown
  | some r => rfl

/-- An item that inserts nothing takes no lock on a source and leaves the keys as they are. -/
structure Passes (s s' : Session Store Write RunStats) : Prop where
  healthy : s'.Healthy
  log : s'.log.filterMap Write.sourceLock = s.log.filterMap Write.sourceLock
  keys : ∀ sourceId key, s'.view.HasKey sourceId key ↔ s.view.HasKey sourceId key

theorem Passes.refl (h : s.Healthy) : Passes s s := ⟨h, rfl, fun _ _ => Iff.rfl⟩

theorem Passes.note {s' : Session Store Write RunStats} (h : Passes s s')
    (f : RunStats → RunStats) : Passes s (s'.note f) :=
  ⟨h.healthy.note f, h.log, h.keys⟩

theorem passes_of_writes {s' : Session Store Write RunStats} {ws : List Write}
    (hlog : s'.log = s.log ++ ws) (hs' : s'.Healthy) (hws : ∀ w ∈ ws, w.sourceLock = none)
    (hkeys : ∀ sourceId key, s'.view.HasKey sourceId key ↔ s.view.HasKey sourceId key) :
    Passes s s' where
  healthy := hs'
  log := by
    have hnone : ws.filterMap Write.sourceLock = [] := List.filterMap_eq_nil_iff.mpr hws
    rw [hlog, List.filterMap_append, hnone, List.append_nil]
  keys := hkeys

theorem ingest_passes (h : s.Healthy) (call : IngestCall)
    (hquiet : call.blocked env = false → (validateLead env (call.lead env)).isOk = true →
      s.view.knows env call = true) : Passes s (ingest env call s).2 := by
  have hknown {validation : LeadValidation} (hopen : call.blocked env = false)
      (hv : validateLead env (call.lead env) = .ok validation) : s.view.knows env call = true :=
    hquiet hopen (by rw [hv]; rfl)
  rcases hrun : ingest env call s with ⟨e | a, s'⟩
  · obtain ⟨ws, ha, hview, hlog, hs'⟩ := ingest_raises env h hrun
    cases ha with
    | ungraded => exact passes_of_writes hlog hs' (by simp) (by simp [hview])
    | @unmerged validation target e unblocked validates decided stuck =>
        have hk := hknown unblocked validates
        refine passes_of_writes hlog hs' (by simpa using upsertWrite_locks validation hk) ?_
        intro sourceId key
        rw [hview, Session.replay_cons, Session.replay_nil]
        exact (Store.hasKey_upsertWrite s.view call validation sourceId key).trans
          (Store.hasKey_known hk)
  · obtain ⟨ws, hi, hview, hlog, hs'⟩ := ingest_completes env h hrun
    cases hi with
    | suppressed => exact passes_of_writes hlog hs' (by simp) (by simp [hview])
    | @placed validation placed flags unblocked validates places flagged =>
        have hk := hknown unblocked validates
        refine passes_of_writes hlog hs' ?_ ?_
        · intro w hw
          rcases List.mem_cons.mp hw with rfl | hw
          · exact upsertWrite_locks validation hk
          · rcases List.mem_append.mp hw with hw | hw
            · exact places_locks places hw
            · rw [flagged] at hw
              exact flagWrites_locks hw
        · intro sourceId key
          obtain ⟨validation, row, hsettles⟩ :=
            (Ingests.placed unblocked validates places flagged).settles unblocked
          rw [← hview] at hsettles
          exact (Store.hasKey_settles hsettles sourceId key).trans (Store.hasKey_known hk)

theorem ingest_inserts (h : s.Healthy) {call : IngestCall} (hopen : call.blocked env = false)
    (hv : (validateLead env (call.lead env)).isOk = true) (hnew : s.view.knows env call = false) :
    (call.source.id, RowLock.keyShare) ∈ (ingest env call s).2.log.filterMap Write.sourceLock := by
  have hinsert (validation : LeadValidation) :
      (s.view.upsertWrite env call validation).sourceLock = some (call.source.id, .keyShare) := by
    unfold Store.upsertWrite
    cases hr : s.view.recordOf env call with
    | none => simp [Write.sourceLock, Store.upserted_sourceId]
    | some r =>
        rw [Store.knows, hr] at hnew
        cases hnew
  rcases hrun : ingest env call s with ⟨e | a, s'⟩
  · obtain ⟨ws, ha, -, hlog, -⟩ := ingest_raises env h hrun
    cases ha with
    | ungraded _ stuck =>
        rw [stuck] at hv
        cases hv
    | @unmerged validation =>
        exact List.mem_filterMap.mpr ⟨_, by rw [hlog]; simp, hinsert validation⟩
  · obtain ⟨ws, hi, -, hlog, -⟩ := ingest_completes env h hrun
    cases hi with
    | suppressed blocked =>
        rw [blocked] at hopen
        cases hopen
    | @placed validation =>
        exact List.mem_filterMap.mpr ⟨_, by rw [hlog]; simp, hinsert validation⟩

/-- What `Shift.step` makes of the session of the run. -/
def ingestItem (env : Platform) (task : Task) (source : Source) (suppressions : SuppressionList)
    (item : CollectedItem) (s : Session Store Write RunStats) : Session Store Write RunStats :=
  let r := Txn.armed none (processItem env source task.config task.job.id suppressions item) s
  match r.1 with
  | .ok _ => r.2
  | .error _ => r.2.note RunStats.countError

theorem ingestItem_passes (h : s.Healthy) {item : CollectedItem}
    (hquiet : inserts env task source suppressions s.view item = false) :
    Passes s (ingestItem env task source suppressions item s) := by
  have hpasses : Passes s
      (processItem env source task.config task.job.id suppressions item s).2 := by
    cases item with
    | error message => exact (Passes.refl h).note _
    | record raw =>
        refine ingest_passes h (call task source suppressions raw) fun hopen hv => ?_
        simpa [inserts, hopen, hv] using hquiet
  unfold ingestItem
  rw [Txn.armed_healthy h hpasses.healthy]
  dsimp only
  split
  · exact hpasses
  · exact hpasses.note _

theorem ingestItem_inserts (task : Task) (source : Source) (suppressions : SuppressionList)
    (h : s.Healthy) {item : CollectedItem}
    (hinserts : inserts env task source suppressions s.view item = true) :
    (source.id, RowLock.keyShare) ∈
      (ingestItem env task source suppressions item s).log.filterMap Write.sourceLock := by
  cases item with
  | error message => cases hinserts
  | record raw =>
      simp only [inserts, Bool.and_eq_true, Bool.not_eq_true'] at hinserts
      have hlocks := ingest_inserts h hinserts.1.1 hinserts.1.2 hinserts.2
      have hlog : (Txn.armed none (processItem env source task.config task.job.id suppressions
          (.record raw)) s).2.log = (ingest env (call task source suppressions raw) s).2.log := by
        have hs : { s with fault := none } = s := by rw [← h.quiet]
        unfold Txn.armed
        rw [hs]
        rfl
      unfold ingestItem
      dsimp only
      split
      · rw [hlog]
        exact hlocks
      · rw [Session.note_log, hlog]
        exact hlocks

end Items

/-- The transaction of a tick while a job of its source is running. -/
def QuietTick (task : Task) (source : Source) (t : Tick) : Prop :=
  t.config = task.config ∧ t.log = [] ∧
    (t.phase = .reading ∨ t.phase = .assigning source ∨ t.phase = .locking source ∨
      t.phase = .checking source ∨ t.phase = .finished source none)

/-- The run has locked nothing of the source, and up to `rest` it will insert nothing. -/
def QuietRun (env : Platform) (task : Task) (source : Source) (st : Store)
    (rest : List CollectedItem) : Shift.Run → Prop
  | .waiting => True
  | .ingesting source' job suppressions session left =>
      source' = source ∧ job.id = task.job.id ∧ suppressions = SuppressionRepository.list st ∧
        session.Healthy ∧ session.log.filterMap Write.sourceLock = [] ∧
        (∀ sourceId key, session.view.HasKey sourceId key ↔ st.HasKey sourceId key) ∧
        ∃ known, left = (known ++ rest).map (fun item => (item, none)) ∧
          ∀ item ∈ known, inserts env task source suppressions st item = false
  | .closed session => session.log.filterMap Write.sourceLock = []
  | .over => True

structure Quiet (env : Platform) (task : Task) (source : Source) (st : Store)
    (rest : List CollectedItem) (s : Overlap) : Prop where
  sources : s.shift.committed.sources = st.sources
  records : s.shift.committed.records = st.records
  suppressions : s.shift.committed.suppressions = st.suppressions
  job : ∃ row, s.shift.committed.jobs.find? task.job.id = some row ∧ row.status = .running ∧
    row.sourceId = source.id
  tick : ∀ t, s.tick = some t → QuietTick task source t
  run : QuietRun env task source st rest s.shift.run

/-- The configuration the run and the tick read is the one the row of the source has. -/
structure UpToDate (task : Task) (source : Source) (st : Store) : Prop where
  found : SourceRepository.byName st task.config.name = some source
  same : { source with
    type := task.config.type
    priority := task.config.priority
    enabled := task.config.enabled
    config := task.config.options } = source

section Steps

variable {st : Store} {rest : List CollectedItem} {collection : Collection} {s : Overlap}

theorem Quiet.locks (h : Quiet env task source st rest s) : s.shift.locks = [] := by
  have hrun := h.run
  unfold Shift.locks Shift.log
  rcases hr : s.shift.run with _ | ⟨source', job, suppressions, session, left⟩ | session | _ <;>
    rw [hr] at hrun
  · rfl
  · exact hrun.2.2.2.2.1
  · exact hrun
  · rfl

theorem Quiet.free (h : Quiet env task source st rest s) : s.blocked = false := by
  unfold blocked
  rw [h.locks]
  cases s.tick.bind Tick.asks <;> rfl

/-- What the tick's next statement makes of its phase while the job of the run is running. -/
def passed (source : Source) : Tick.Phase → Tick.Phase
  | .reading => .assigning source
  | .assigning _ => .locking source
  | .locking _ => .checking source
  | .checking _ => .finished source none
  | phase => phase

theorem Quiet.byName (hup : UpToDate task source st) (h : Quiet env task source st rest s) :
    SourceRepository.byName s.shift.committed task.config.name = some source := by
  rw [← hup.found]
  unfold SourceRepository.byName
  rw [h.sources]

theorem Quiet.activeJob (h : Quiet env task source st rest s) :
    ∃ jobId, JobService.activeJob s.shift.committed source.id = some jobId := by
  cases hactive : JobService.activeJob s.shift.committed source.id with
  | some jobId => exact ⟨jobId, rfl⟩
  | none =>
      obtain ⟨row, hrow, hrunning, hsource⟩ := h.job
      have hidle := JobService.activeJob_eq_none.mp hactive row (Table.find?_eq_some.mp hrow).1 hsource
      rw [CollectionJob.active_iff.mpr (.inr hrunning)] at hidle
      cases hidle

theorem Quiet.statement (collection : Collection) (hup : UpToDate task source st)
    (h : Quiet env task source st rest s) {t : Tick} (ht : s.tick = some t) :
    step env task collection s .statement =
      { s with tick := some { t with phase := passed source t.phase } } := by
  obtain ⟨hconfig, hlog, hphase⟩ := h.tick t ht
  obtain ⟨config, now, phase, log⟩ := t
  dsimp only at hconfig hlog hphase
  subst hconfig hlog
  unfold step
  rw [ht, h.free]
  rcases hphase with rfl | rfl | rfl | rfl | rfl
  · simp [Tick.advance, passed, h.byName hup]
  · simp [Tick.advance, passed, Tick.assigned, hup.same]
  · simp [Tick.advance, passed]
  · obtain ⟨jobId, hactive⟩ := h.activeJob
    simp [Tick.advance, passed, hactive]
  · simp [Tick.advance, passed]

theorem QuietTick.passed {t : Tick} (ht : QuietTick task source t) :
    QuietTick task source { t with phase := passed source t.phase } := by
  obtain ⟨hconfig, hlog, hphase⟩ := ht
  refine ⟨hconfig, hlog, ?_⟩
  rcases hphase with hp | hp | hp | hp | hp <;> simp [hp, Overlap.passed]

theorem Quiet.passes (hup : UpToDate task source st) (h : Quiet env task source st rest s) :
    Quiet env task source st rest (step env task collection s .statement) := by
  cases ht : s.tick with
  | none =>
      have hsame : step env task collection s .statement = s := by simp [step, ht]
      rw [hsame]
      exact h
  | some t =>
      rw [h.statement collection hup ht]
      refine { h with tick := ?_ }
      intro t' ht'
      cases ht'
      exact (h.tick t ht).passed

theorem Quiet.skips (hup : UpToDate task source st) (h : Quiet env task source st rest s) :
    Skips env task collection s where
  free := h.free
  ends _ t ht := by
    have hphase := (h.tick t ht).2.2
    have h₁ : Quiet env task source st rest (step env task collection s .statement) := h.passes hup
    have ht₁ := congrArg Overlap.tick (h.statement collection hup ht)
    have ht₂ := congrArg Overlap.tick (h₁.statement collection hup ht₁)
    have h₂ : Quiet env task source st rest (step env task collection
      (step env task collection s .statement) .statement) := h₁.passes hup
    have ht₃ := congrArg Overlap.tick (h₂.statement collection hup ht₂)
    have h₃ : Quiet env task source st rest (step env task collection (step env task collection
      (step env task collection s .statement) .statement) .statement) := h₂.passes hup
    have ht₄ := congrArg Overlap.tick (h₃.statement collection hup ht₃)
    refine ⟨4, _, source, ht₄, ?_⟩
    rcases hphase with hp | hp | hp | hp | hp <;> simp [hp, Overlap.passed]

theorem Quiet.moved {shift : Shift} (h : Quiet env task source st rest s)
    (hcommitted : shift.committed = s.shift.committed)
    (hrun : QuietRun env task source st rest shift.run) :
    Quiet env task source st rest { s with shift } where
  sources := by rw [hcommitted]; exact h.sources
  records := by rw [hcommitted]; exact h.records
  suppressions := by rw [hcommitted]; exact h.suppressions
  job := by rw [hcommitted]; exact h.job
  tick := h.tick
  run := hrun

theorem flushWrites_locks (loaded assigned : CollectionJob) :
    (JobRepository.flushWrites loaded assigned).filterMap Write.sourceLock = [] := by
  unfold JobRepository.flushWrites
  dsimp only
  split <;> rfl

theorem flushWrites_records (loaded assigned : CollectionJob) (v : Store) :
    (Session.replay (JobRepository.flushWrites loaded assigned) v).records = v.records := by
  unfold JobRepository.flushWrites
  dsimp only
  split <;> rfl

theorem Quiet.openRun (hup : UpToDate task source st) (h : Quiet env task source st rest s)
    {known : List CollectedItem}
    (hitems : collection.items = (known ++ rest).map fun item => (item, none))
    (hknown : ∀ item ∈ known,
      inserts env task source (SuppressionRepository.list st) st item = false) :
    Quiet env task source st rest
      { s with shift := Shift.step env task collection s.shift .openRun } := by
  rcases hrun : s.shift.run with _ | ⟨source', job, suppressions, session, left⟩ | session | _
  · obtain ⟨row, hrow, -⟩ := h.job
    have hhealthy : s.shift.committed.session.Healthy := ⟨rfl, rfl⟩
    have hupsert := SourceRepository.upsert_same hhealthy (h.byName hup) hup.same
    have hopen := openRun_of_upsert hhealthy (by simp) hupsert hrow task.startedAt
    have hid : row.id = task.job.id := Queue.id_of_find? hrow
    simp only [Shift.step, hrun, hopen]
    split
    · exact h
    · refine h.moved rfl ⟨rfl, hid, ?_, hhealthy.emit _, ?_, ?_, known, hitems, ?_⟩
      · change SuppressionRepository.list s.shift.committed = _
        simp only [SuppressionRepository.list, SuppressionRepository.values, h.suppressions]
      · exact flushWrites_locks _ _
      · intro sourceId key
        have hrecords : (s.shift.committed.session.emit ([] ++ JobRepository.flushWrites row
            (JobRepository.marked row task.startedAt))).view.records = st.records :=
          (flushWrites_records _ _ _).trans h.records
        simp only [Store.HasKey, hrecords]
      · have hlist : SuppressionRepository.list s.shift.committed.session.view =
            SuppressionRepository.list st := by
          change SuppressionRepository.list s.shift.committed = _
          simp only [SuppressionRepository.list, SuppressionRepository.values, h.suppressions]
        rw [hlist]
        exact hknown
  all_goals
    have hsame : Shift.step env task collection s.shift .openRun = s.shift := by
      simp only [Shift.step, hrun]
    rw [hsame]
    exact h

theorem step_ingest {committed : Store} {job : CollectionJob} {suppressions : SuppressionList}
    {session : Session Store Write RunStats} {item : CollectedItem}
    {left : List (CollectedItem × Option Nat)} {beat : Shift.Beat} (hid : job.id = task.job.id) :
    Shift.step env task collection
        ⟨committed, .ingesting source job suppressions session ((item, none) :: left), beat⟩ .ingest =
      ⟨committed, .ingesting source job suppressions
        (ingestItem env task source suppressions item session) left, beat⟩ := by
  cases hrun : (Txn.armed none (processItem env source task.config task.job.id suppressions item)
    session).1 <;> simp only [Shift.step, ingestItem, hid, hrun]

theorem QuietRun.ingest (rest : List CollectedItem) {job : CollectionJob}
    {suppressions : SuppressionList} {session : Session Store Write RunStats}
    {item : CollectedItem} {known : List CollectedItem}
    (hid : job.id = task.job.id) (hs : suppressions = SuppressionRepository.list st)
    (hhealthy : session.Healthy) (hlocks : session.log.filterMap Write.sourceLock = [])
    (hkeys : ∀ sourceId key, session.view.HasKey sourceId key ↔ st.HasKey sourceId key)
    (hknown : ∀ i ∈ item :: known, inserts env task source suppressions st i = false) :
    QuietRun env task source st rest (.ingesting source job suppressions
      (ingestItem env task source suppressions item session)
      ((known ++ rest).map fun item => (item, none))) := by
  have hitem : inserts env task source suppressions session.view item = false := by
    rw [inserts_congr hkeys]
    exact hknown item List.mem_cons_self
  have hpasses := ingestItem_passes hhealthy hitem
  exact ⟨rfl, hid, hs, hpasses.healthy, hpasses.log.trans hlocks,
    fun sourceId key => (hpasses.keys sourceId key).trans (hkeys sourceId key), known, rfl,
    fun i hi => hknown i (List.mem_cons_of_mem _ hi)⟩

theorem Quiet.ingest (h : Quiet env task source st [] s) :
    Quiet env task source st []
      { s with shift := Shift.step env task collection s.shift .ingest } := by
  have hquiet := h.run
  obtain ⟨⟨committed, run, beat⟩, tick⟩ := s
  rcases run with _ | ⟨source', job, suppressions, session, left⟩ | session | _
  case ingesting =>
    obtain ⟨rfl, hid, hs, hhealthy, hlocks, hkeys, known, hleft, hknown⟩ := hquiet
    rw [List.append_nil] at hleft
    cases known with
    | nil =>
        subst hleft
        exact h
    | cons item known =>
        subst hleft
        rw [List.map_cons, step_ingest hid]
        have hrun := QuietRun.ingest [] hid hs hhealthy hlocks hkeys hknown
        rw [List.append_nil] at hrun
        exact h.moved rfl hrun
  all_goals exact h

theorem closeRun_raises (e : PyError) (job : CollectionJob) (now : Instant)
    {session : Session Store Write RunStats} (hs : session.Healthy) :
    ∃ e' session', closeRun job (.error e) now session = (.error e', session') := by
  cases e with
  | valueError => exact ⟨_, _, rfl⟩
  | sourceError message =>
      obtain ⟨w, hsave, -⟩ := saveResults_run hs job.id session.notes.persisted
      have hfinish : JobRepository.markFinished job .failed (some message) now
          (session.emit [w]) = _ :=
        JobRepository.assign_healthy (hs.emit _) job
          (JobRepository.finished job .failed (some message) now)
      unfold closeRun
      dsimp only
      rw [Txn.bind_ok (Txn.counters_run session), Txn.bind_ok hsave, Txn.bind_ok hfinish]
      exact ⟨_, _, rfl⟩

theorem Quiet.closeRun (h : Quiet env task source st [] s) :
    (Shift.step env task collection s.shift .closeRun).run = .over ∨
      Quiet env task source st []
        { s with shift := Shift.step env task collection s.shift .closeRun } := by
  have hquiet := h.run
  obtain ⟨⟨committed, run, beat⟩, tick⟩ := s
  rcases run with _ | ⟨source', job, suppressions, session, _ | ⟨item, left⟩⟩ | session | _
  case ingesting.nil =>
    obtain ⟨-, -, -, hhealthy, hlocks, -⟩ := hquiet
    cases hending : collection.ending with
    | error e =>
        obtain ⟨e', session', hraise⟩ := closeRun_raises e job task.finishedAt hhealthy
        left
        simp only [Shift.step, hending, hraise]
    | ok a =>
        obtain ⟨w, hclose, hw, -⟩ := closeRun_run hhealthy job task.finishedAt
        have hquietly : (session.emit (w :: JobRepository.flushWrites job
            (JobRepository.finished job .completed none task.finishedAt))).log.filterMap
              Write.sourceLock = [] := by
          rw [Session.emit_log, List.filterMap_append, hlocks, List.nil_append]
          rcases hw with ⟨r, rfl⟩ | ⟨r, rfl⟩ <;>
            exact flushWrites_locks _ _
        right
        simp only [Shift.step, hending]
        rw [show (Except.ok a : Except PyError Unit) = .ok () from rfl, hclose]
        dsimp only
        split
        · exact h
        · exact h.moved rfl hquietly
  all_goals exact .inr h

/-- A step of the run keeps it quiet, or ends it. -/
theorem Quiet.shift (hup : UpToDate task source st) (h : Quiet env task source st [] s)
    {known : List CollectedItem} (hitems : collection.items = known.map fun item => (item, none))
    (hknown : ∀ item ∈ known,
      inserts env task source (SuppressionRepository.list st) st item = false) (l : ShiftStep) :
    (Shift.step env task collection s.shift l).run = .over ∨
      Quiet env task source st [] { s with shift := Shift.step env task collection s.shift l } := by
  cases l with
  | openRun => exact .inr (h.openRun hup (by rw [List.append_nil]; exact hitems) hknown)
  | ingest => exact .inr h.ingest
  | closeRun => exact h.closeRun
  | commit =>
      rcases hrun : s.shift.run with _ | _ | session | _
      case closed =>
        left
        simp only [Shift.step, hrun]
      all_goals
        right
        have hsame : Shift.step env task collection s.shift .commit = s.shift := by
          simp only [Shift.step, hrun]
        rw [hsame]
        exact h
  | wake now =>
      refine .inr (h.moved ?_ (by rw [Shift.run_wake]; exact h.run))
      simp only [Shift.step]
      split <;> rfl
  | update =>
      refine .inr (h.moved ?_ (by rw [Shift.run_update]; exact h.run))
      simp only [Shift.step]
      split
      · split
        · split <;> rfl
        · rfl
      · rfl
  | release =>
      right
      have hrun := h.run
      obtain ⟨⟨committed, run, beat⟩, tick⟩ := s
      cases beat with
      | holding now =>
          obtain ⟨row, hrow, hs, hsource⟩ := h.job
          refine ⟨h.sources, h.records, h.suppressions, ?_, h.tick, hrun⟩
          simp only [Shift.step, Queue.find?_heartbeat, if_true, hrow, Option.map_some]
          refine ⟨_, rfl, ?_⟩
          split
          · exact ⟨hs, hsource⟩
          · exact ⟨hs, hsource⟩
      | asleep | asking => exact h

theorem Quiet.fire (h : Quiet env task source st rest s) (now : Instant) :
    Quiet env task source st rest (step env task collection s (.fire now)) := by
  unfold step
  dsimp only
  split
  · exact h
  · split
    · refine { h with tick := fun t ht => ?_ }
      cases ht
      exact ⟨rfl, rfl, .inl rfl⟩
    · exact h

theorem Quiet.commit (h : Quiet env task source st rest s) :
    Quiet env task source st rest (step env task collection s .commit) := by
  unfold step
  dsimp only
  split
  · exact h
  · rename_i t ht
    split
    · obtain ⟨-, hlog, -⟩ := h.tick t ht
      rw [hlog, Session.replay_nil]
      exact { h with tick := fun t ht => by cases ht }
    · exact h

theorem over_step (h : s.shift.run = .over) (l : OverlapStep) :
    (step env task collection s l).shift.run = .over := by
  cases l with
  | run l =>
      have hshift : (Shift.step env task collection s.shift l).run = .over := by
        cases l with
        | openRun | ingest | closeRun | commit =>
            simp only [Shift.step, h]
        | wake now => rw [Shift.run_wake, h]
        | update => rw [Shift.run_update, h]
        | release => rw [Shift.run_release, h]
      unfold step
      dsimp only
      split
      · exact h
      · exact hshift
  | fire now =>
      unfold step
      dsimp only
      split
      · exact h
      · split <;> exact h
  | statement =>
      unfold step
      dsimp only
      split
      · exact h
      · split <;> exact h
  | commit =>
      unfold step
      dsimp only
      split
      · exact h
      · split <;> exact h

theorem skips_of_over (h : s.shift.run = .over) : Skips env task collection s where
  free := by
    unfold blocked Shift.locks Shift.log
    rw [h]
    cases s.tick.bind Tick.asks <;> rfl
  ends hopen := by
    unfold Shift.isOpen at hopen
    rw [h] at hopen
    cases hopen

theorem quiet_step (collection : Collection) (hup : UpToDate task source st) {known : List CollectedItem}
    (hitems : collection.items = known.map fun item => (item, none))
    (hknown : ∀ item ∈ known,
      inserts env task source (SuppressionRepository.list st) st item = false)
    (h : s.shift.run = .over ∨ Quiet env task source st [] s) (l : OverlapStep) :
    (step env task collection s l).shift.run = .over ∨
      Quiet env task source st [] (step env task collection s l) := by
  rcases h with hover | h
  · exact .inl (over_step hover l)
  · cases l with
    | run l =>
        unfold step
        dsimp only
        split
        · exact .inr h
        · exact h.shift hup hitems hknown l
    | fire now => exact .inr (h.fire now)
    | statement => exact .inr (h.passes hup)
    | commit => exact .inr h.commit

end Steps

section Blocked

variable {st : Store} {collection : Collection}

theorem claimed_job {before : Store} {worker : Text} {now : Instant} {locks : List Nat}
    {c : ClaimedJob} (h : Queue.claim before worker now locks = (some c, st)) :
    ∃ row, st.jobs.find? c.id = some row ∧ row.status = .running ∧ row.sourceId = c.sourceId := by
  have hc : (Queue.claim before worker now locks).1 = some c := by rw [h]
  obtain ⟨j, hj, -, hrows⟩ := Queue.claim_eq_some hc
  have hrow := hrows c.id
  rw [h, if_pos rfl] at hrow
  refine ⟨j.claimed worker now, hrow, rfl, ?_⟩
  unfold Queue.claim at hc
  cases hnext : Queue.nextJob before now locks with
  | none => simp [hnext] at hc
  | some job =>
      simp only [hnext, Option.some.injEq] at hc
      subst hc
      have hmem := (Table.mem_select.mp (mem_ranked.mp (List.mem_of_head? hnext))).1
      have hfind : before.jobs.find? job.id = some job := Table.find?_eq_some.mpr ⟨hmem, rfl⟩
      have hsame : j = job := Option.some.inj (hj.symm.trans hfind)
      rw [hsame]

theorem quiet_start (hjob : ∃ row, st.jobs.find? task.job.id = some row ∧ row.status = .running ∧
    row.sourceId = source.id) (rest : List CollectedItem) :
    Quiet env task source st rest (start st) :=
  ⟨rfl, rfl, rfl, hjob, (fun t ht => by cases ht), trivial⟩

theorem opened (env : Platform) (collection : Collection) (hup : UpToDate task source st)
    (hjob : ∃ row, st.jobs.find? task.job.id = some row ∧ row.status = .running ∧
      row.sourceId = source.id) :
    ∃ job session, job.id = task.job.id ∧ session.Healthy ∧
      (∀ sourceId key, session.view.HasKey sourceId key ↔ st.HasKey sourceId key) ∧
      step env task collection (start st) (.run .openRun) =
        ⟨⟨st, .ingesting source job (SuppressionRepository.list st) session collection.items,
          .asleep⟩, none⟩ := by
  obtain ⟨row, hrow, -⟩ := hjob
  have hhealthy : st.session.Healthy := ⟨rfl, rfl⟩
  have hupsert := SourceRepository.upsert_same hhealthy hup.found hup.same
  have hopen := openRun_of_upsert hhealthy (by simp) hupsert hrow task.startedAt
  have hid : row.id = task.job.id := Queue.id_of_find? hrow
  refine ⟨JobRepository.marked row task.startedAt, st.session.emit ([] ++
    JobRepository.flushWrites row (JobRepository.marked row task.startedAt)),
    hid, hhealthy.emit _, ?_, ?_⟩
  · intro sourceId key
    have hrecords : (st.session.emit ([] ++ JobRepository.flushWrites row
        (JobRepository.marked row task.startedAt))).view.records = st.records :=
      flushWrites_records _ _ _
    simp only [Store.HasKey, hrecords]
  · simp only [step, start, Shift.step, Shift.start, hopen]
    rfl

theorem execute_known (collection : Collection) {job : CollectionJob}
    (hid : job.id = task.job.id) (rest : List CollectedItem) {known : List CollectedItem}
    (hknown : ∀ item ∈ known, inserts env task source suppressions st item = false)
    {session : Session Store Write RunStats} (hhealthy : session.Healthy)
    (hkeys : ∀ sourceId key, session.view.HasKey sourceId key ↔ st.HasKey sourceId key) :
    ∃ session', session'.Healthy ∧
      (∀ sourceId key, session'.view.HasKey sourceId key ↔ st.HasKey sourceId key) ∧
      execute (step env task collection) ⟨⟨st, .ingesting source job suppressions session
          ((known ++ rest).map fun item => (item, none)), .asleep⟩, none⟩
        (List.replicate known.length (.run .ingest)) =
      ⟨⟨st, .ingesting source job suppressions session' (rest.map fun item => (item, none)),
        .asleep⟩, none⟩ := by
  induction known generalizing session with
  | nil => exact ⟨session, hhealthy, hkeys, rfl⟩
  | cons item known ih =>
      have hitem : inserts env task source suppressions session.view item = false := by
        rw [inserts_congr hkeys]
        exact hknown item List.mem_cons_self
      have hpasses := ingestItem_passes hhealthy hitem
      obtain ⟨session', hhealthy', hkeys', hrest⟩ := ih
        (fun i hi => hknown i (List.mem_cons_of_mem _ hi)) hpasses.healthy
        fun sourceId key => (hpasses.keys sourceId key).trans (hkeys sourceId key)
      refine ⟨session', hhealthy', hkeys', ?_⟩
      rw [List.length_cons, List.replicate_succ, execute_cons, ← hrest]
      congr 1
      simp only [step, List.cons_append, List.map_cons, step_ingest hid]
      rfl

/-- The tick that comes after the first new record waits for the run. -/
theorem blocked_of_inserts (collection : Collection) (hup : UpToDate task source st)
    (hjob : ∃ row, st.jobs.find? task.job.id = some row ∧ row.status = .running ∧
      row.sourceId = source.id) {known rest : List CollectedItem} {item : CollectedItem}
    (hitems : collection.items = (known ++ item :: rest).map fun item => (item, none))
    (hknown : ∀ item ∈ known,
      inserts env task source (SuppressionRepository.list st) st item = false)
    (hitem : inserts env task source (SuppressionRepository.list st) st item = true) :
    (execute (step env task collection) (start st) (.run .openRun ::
      (List.replicate known.length (.run .ingest) ++
        [.run .ingest, .fire 0, .statement, .statement]))).blocked = true := by
  obtain ⟨job, session, hid, hhealthy, hkeys, hopen⟩ :=
    opened env collection hup hjob
  obtain ⟨session', hhealthy', hkeys', hexecute⟩ := execute_known collection hid
    (item :: rest) hknown hhealthy hkeys
  rw [execute_cons, hopen, hitems, execute_append, hexecute, List.map_cons]
  have hlock := ingestItem_inserts task source (SuppressionRepository.list st) hhealthy'
    (show inserts env task source _ session'.view item = true by
      rw [inserts_congr hkeys']
      exact hitem)
  have hfirst : step env task collection ⟨⟨st, .ingesting source job (SuppressionRepository.list st)
      session' ((item, none) :: rest.map fun item => (item, none)), .asleep⟩, none⟩ (.run .ingest) =
      ⟨⟨st, .ingesting source job (SuppressionRepository.list st)
        (ingestItem env task source (SuppressionRepository.list st) item session')
        (rest.map fun item => (item, none)), .asleep⟩, none⟩ := by
    simp only [step, step_ingest hid]
    rfl
  rw [execute_cons, hfirst]
  set shift : Shift := ⟨st, .ingesting source job (SuppressionRepository.list st)
    (ingestItem env task source (SuppressionRepository.list st) item session')
    (rest.map fun item => (item, none)), .asleep⟩
  have hbeats : shift.beats task.job.id = true := by
    obtain ⟨row, hrow, hrunning, -⟩ := hjob
    change (st.jobs.find? task.job.id).any CollectionJob.running = true
    rw [hrow, Option.any_some, CollectionJob.running_iff.mpr hrunning]
  have hfire : step env task collection ⟨shift, none⟩ (.fire 0) =
      ⟨shift, some (.start task.config 0)⟩ := by
    simp only [step, hbeats, if_true]
  have hread : step env task collection ⟨shift, some (.start task.config 0)⟩ .statement =
      ⟨shift, some { Tick.start task.config 0 with phase := .assigning source }⟩ := by
    have hfound : SourceRepository.byName shift.committed task.config.name = some source := hup.found
    simp [step, blocked, Tick.asks, Tick.start, Tick.advance, hfound]
  have hassign : step env task collection
      ⟨shift, some { Tick.start task.config 0 with phase := .assigning source }⟩ .statement =
      ⟨shift, some { Tick.start task.config 0 with phase := .locking source }⟩ := by
    simp [step, blocked, Tick.asks, Tick.start, Tick.advance, Tick.assigned, hup.same]
  rw [execute_cons, hfire, execute_cons, hread, execute_cons, hassign, execute_nil]
  have hmem : (source.id, RowLock.keyShare) ∈ shift.locks := hlock
  refine List.any_eq_true.mpr ⟨_, hmem, ?_⟩
  simp [SourceLock.collides, RowLock.conflicts]

end Blocked

end Overlap

open Overlap

theorem tick_is_skipped {before st : Store} {worker : Text} {now : Instant} {locks : List Nat}
    (task : Worker.Task) (items : List CollectedItem) (ending : Except PyError Unit)
    {source : Source} (hclaim : Queue.claim before worker now locks = (some task.job, st))
    (hsource : source.id = task.job.sourceId) (hup : UpToDate task source st) :
    (∀ labels, Skips env task ⟨items.map fun item => (item, none), ending⟩
      (execute (step env task ⟨items.map fun item => (item, none), ending⟩) (.start st) labels)) ↔
      ∀ item ∈ items, inserts env task source (SuppressionRepository.list st) st item = false := by
  have hjob : ∃ row, st.jobs.find? task.job.id = some row ∧ row.status = .running ∧
      row.sourceId = source.id := by
    obtain ⟨row, hrow, hrunning, hs⟩ := claimed_job hclaim
    exact ⟨row, hrow, hrunning, by rw [hs, hsource]⟩
  constructor
  · intro hskips
    by_contra hnot
    obtain ⟨item, hmem, hitem⟩ : ∃ item ∈ items,
        inserts env task source (SuppressionRepository.list st) st item = true := by
      simpa using hnot
    -- up to the first new record the run takes no lock
    have hsome : (items.find? (inserts env task source (SuppressionRepository.list st) st)).isSome =
        true := List.find?_isSome.mpr ⟨item, hmem, hitem⟩
    obtain ⟨first, hfirst⟩ := Option.isSome_iff_exists.mp hsome
    obtain ⟨hinserts, known, rest, rfl, hknown⟩ := List.find?_eq_some_iff_append.mp hfirst
    have hblocked := blocked_of_inserts
      ⟨(known ++ first :: rest).map fun item => (item, none), ending⟩ hup hjob rfl
      (fun item hi => by simpa using hknown item hi) hinserts
    exact absurd (hskips _).free (by rw [hblocked]; simp)
  · intro hknown labels
    have hquiet := execute_invariant
      (I := fun s : Overlap => s.shift.run = .over ∨ Quiet env task source st [] s)
      (.inr (quiet_start hjob []))
      (fun s l h => quiet_step ⟨items.map fun item => (item, none), ending⟩ hup rfl hknown h l)
      labels
    rcases hquiet with hover | hquiet
    · exact skips_of_over hover
    · exact hquiet.skips hup

namespace Overlap

def collected : List CollectedItem := [Worker.csvItem "1".toList "a@x.fi"]

/-- The source has been collected once, and the next job for it is claimed. -/
def secondStore : Store :=
  (Queue.claim (Queue.enqueue (Worker.work .ascii Worker.csvTask
    ⟨collected.map fun item => (item, none), .ok ()⟩ Worker.claimedStore) 1 3 5) "one".toList 6
    []).2

def secondTask : Worker.Task :=
  { Worker.csvTask with job := ⟨2, 1, "csv".toList, 1, 3⟩, startedAt := 7, finishedAt := 9 }

end Overlap

/-- The record is known already. -/
theorem tick_is_skipped_known :
    (SuppressionRepository.list secondStore).emails = [] ∧
      ∀ labels, Skips .ascii secondTask ⟨collected.map fun item => (item, none), .ok ()⟩
        (execute (step .ascii secondTask ⟨collected.map fun item => (item, none), .ok ()⟩)
          (.start secondStore) labels) := by
  have hclaim : Queue.claim (Queue.enqueue (Worker.work .ascii Worker.csvTask
      ⟨collected.map fun item => (item, none), .ok ()⟩ Worker.claimedStore) 1 3 5) "one".toList 6
      [] = (some secondTask.job, secondStore) := Prod.ext (by decide +kernel) rfl
  have hup : UpToDate secondTask ⟨1, "csv".toList, "csv".toList, 10, true, "{}".toList⟩
      secondStore := ⟨by decide +kernel, rfl⟩
  exact ⟨by decide +kernel, (tick_is_skipped .ascii secondTask collected (.ok ()) hclaim rfl
    hup).mpr (by decide +kernel)⟩

/-- On the first collection of the record the tick waits for the run. -/
theorem tick_waits :
    ¬ (∀ labels, Skips .ascii Worker.csvTask ⟨collected.map fun item => (item, none), .ok ()⟩
      (execute (step .ascii Worker.csvTask ⟨collected.map fun item => (item, none), .ok ()⟩)
        (.start Worker.claimedStore) labels)) := by
  intro hskips
  have hfree := (hskips [.run .openRun, .run .ingest, .fire 3, .statement, .statement]).free
  have hblocked : (execute (step .ascii Worker.csvTask
      ⟨collected.map fun item => (item, none), .ok ()⟩) (.start Worker.claimedStore)
      [.run .openRun, .run .ingest, .fire 3, .statement, .statement]).blocked = true := by
    decide +kernel
  rw [hblocked] at hfree
  cases hfree

/-- When the run has committed, the tick goes on, finds no active job and queues another. -/
example : (execute (step .ascii Worker.csvTask ⟨collected.map fun item => (item, none), .ok ()⟩)
    (.start Worker.claimedStore) [.run .openRun, .run .ingest, .fire 3, .statement, .statement,
      .statement, .run .closeRun, .run .commit, .statement, .statement, .statement,
      .commit]).shift.committed.jobs.rows.map CollectionJob.status = [.completed, .pending] := by
  decide +kernel

/-- With nothing in between, the steps of a run leave what its program commits or rolls back, and
the statements of a tick decide what its program returns and have its writes. -/
theorem undisturbed_steps_are_the_programs (env : Platform) :
    (∀ task collection st, (execute (Shift.step env task collection) (Shift.start st)
        (Shift.undisturbed collection)).committed =
          match Worker.process env task collection st with
          | .ok st' => st'
          | .error _ => st) ∧
      ∀ config now st, Tick.Decides (Tick.uninterrupted st (.start config now))
        (JobService.enqueueIfIdle config now st.session) :=
  ⟨fun _ _ st => Shift.execute_undisturbed st,
    fun config now st => Tick.uninterrupted_decides st config now⟩

end LeadPipe
