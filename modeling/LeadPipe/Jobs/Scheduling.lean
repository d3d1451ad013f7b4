import LeadPipe.Jobs.Lifecycle
import LeadPipe.Jobs.Service

/-!
# Schedulers and workers on one queue

Any number of schedulers tick for any sources while the workers take, fail and finish jobs. The
statements of the ticks interleave; a statement that needs a row another transaction has locked
is not executed before that transaction ends.
-/

namespace LeadPipe

open Framework QueueState

/-- The queue, and the open transaction of each scheduler. -/
structure Scheduling where
  queue : QueueState
  ticks : Nat → Option Tick

inductive SchedulingStep where
  | worker (l : QueueStep)
  | fire (scheduler : Nat) (config : SourceConfig) (now : Instant)
  | statement (scheduler : Nat)
  | commit (scheduler : Nat)
  | rollback (scheduler : Nat)

/-- The step makes a job without `enqueue_if_idle`. -/
def QueueStep.creates : QueueStep → Bool
  | .enqueue .. => true
  | _ => false

namespace Scheduling

def opening (sources : Table Source) : Scheduling := ⟨QueueState.opening sources, fun _ => none⟩

def committed (q : Scheduling) : Store := q.queue.store

def withStore (q : Scheduling) (st : Store) : QueueState := { q.queue with store := st }

def step (q : Scheduling) : SchedulingStep → Scheduling
  | .worker l => { q with queue := q.queue.step l }
  | .fire scheduler config now =>
      match q.ticks scheduler with
      | some _ => q
      | none => { q with ticks := Function.update q.ticks scheduler (some (.start config now)) }
  | .statement scheduler =>
      match q.ticks scheduler with
      | none => q
      | some t =>
          let r := t.advance q.committed
          ⟨q.withStore r.1, Function.update q.ticks scheduler (some r.2)⟩
  | .commit scheduler =>
      match q.ticks scheduler with
      | none => q
      | some t =>
          match t.phase with
          | .finished _ _ =>
              ⟨q.withStore (Session.replay t.log q.committed),
                Function.update q.ticks scheduler none⟩
          | _ => q
  | .rollback scheduler => { q with ticks := Function.update q.ticks scheduler none }

/-- No other open transaction has a lock the next statement would wait for. -/
def Granted (q : Scheduling) (scheduler : Nat) : Prop :=
  ∀ t asked, q.ticks scheduler = some t → t.asks = some asked →
    ∀ other t', other ≠ scheduler → q.ticks other = some t' →
      ∀ held ∈ t'.locks, SourceLock.collides held asked = false

/-- Workers fail and finish the jobs they still hold, the sources that tick have a row, and a
statement waits for the locks it needs. -/
def Permitted (q : Scheduling) : SchedulingStep → Prop
  | .worker l => q.queue.Punctual l ∧ l.creates = false
  | .fire _ config _ => (SourceRepository.byName q.committed config.name).isSome = true
  | .statement scheduler => q.Granted scheduler
  | .commit _ | .rollback _ => True

/-- Each source has at most one job that is waiting or running. -/
def OneActive (st : Store) : Prop :=
  ∀ j ∈ st.jobs, ∀ j' ∈ st.jobs, j.sourceId = j'.sourceId → j.active = true →
    j'.active = true → j.id = j'.id

def Idle (st : Store) (sourceId : Nat) : Prop :=
  ∀ j ∈ st.jobs, j.sourceId = sourceId → j.active = false

/-- No job was added between the two, and none became active. -/
structure Calmer (st st' : Store) : Prop where
  next : st.jobs.next ≤ st'.jobs.next
  jobs : ∀ j' ∈ st'.jobs, ∃ j ∈ st.jobs, j.id = j'.id ∧ j.sourceId = j'.sourceId ∧
    (j'.active = true → j.active = true)

theorem Calmer.idle {st st' : Store} (h : Calmer st st') {sourceId : Nat}
    (hidle : Idle st sourceId) : Idle st' sourceId := by
  intro j' hj' hsource
  obtain ⟨j, hj, -, hsame, hactive⟩ := h.jobs j' hj'
  have hnot := hidle j hj (hsame.trans hsource)
  by_contra hne
  rw [hactive (by simpa using hne)] at hnot
  cases hnot

theorem Calmer.oneActive {st st' : Store} (h : Calmer st st') (hone : OneActive st) :
    OneActive st' := by
  intro j hj j' hj' hsource hactive hactive'
  obtain ⟨j₀, hj₀, hid, hs, ha⟩ := h.jobs j hj
  obtain ⟨j₀', hj₀', hid', hs', ha'⟩ := h.jobs j' hj'
  rw [← hid, ← hid']
  exact hone j₀ hj₀ j₀' hj₀' (by rw [hs, hs', hsource]) (ha hactive) (ha' hactive')

end Scheduling

namespace QueueState

variable {q : QueueState}

theorem next_step (q : QueueState) (l : QueueStep) :
    q.store.jobs.next ≤ (q.step l).store.jobs.next := by
  cases l with
  | enqueue sourceId maxAttempts now => exact le_max_left _ _
  | claim worker name now locked =>
      cases hheld : q.held worker with
      | some h => simp [step, hheld]
      | none =>
          simp only [step, hheld, Queue.claim]
          split <;> exact le_refl _
  | heartbeat worker now | complete worker startedAt finishedAt =>
      cases hheld : q.held worker <;> simp only [step, hheld] <;> exact le_refl _
  | fail worker error now jitter =>
      cases hheld : q.held worker <;> simp only [step, hheld]
      · exact le_refl _
      · unfold Queue.fail
        split <;> exact le_refl _
  | recoverStale staleAfter now failedAt => exact le_refl _
  | crash worker => exact le_refl _

theorem RowStep.sourceId {l : QueueStep} {j j' : CollectionJob} (h : RowStep q l j j') :
    j'.sourceId = j.sourceId := by
  cases h with
  | same | claimed | beaten | completed => rfl
  | swept => split <;> rfl
  | failed =>
      unfold Queue.failedRow
      split <;> rfl

theorem Assigned.calmer (hq : q.Assigned) {l : QueueStep} (hl : q.Punctual l)
    (hcreates : l.creates = false) : Scheduling.Calmer q.store (q.step l).store where
  next := next_step q l
  jobs j' hj' := by
    have hrow' : (q.step l).row j'.id = some j' := Table.find?_eq_some.mpr ⟨hj', rfl⟩
    cases hrow : q.row j'.id with
    | none =>
        obtain ⟨sourceId, maxAttempts, now, rfl, -⟩ := row_new hrow hrow'
        cases hcreates
    | some j =>
        obtain ⟨found, hfound, hstep⟩ := row_step hrow l
        rw [hrow'] at hfound
        cases hfound
        refine ⟨j, (Table.find?_eq_some.mp hrow).1, row_id hrow, hstep.sourceId.symm, ?_⟩
        intro hactive
        rw [CollectionJob.active_iff] at hactive ⊢
        rcases hq.edges hl hrow hrow' with hsame | hedge
        · rwa [hsame] at hactive
        · generalize j.status = s at hedge ⊢
          generalize j'.status = s' at hedge hactive
          cases hedge <;> simp

end QueueState

namespace Scheduling

/-- The writes of the transaction are those to its source and the job it has created. From the
check on, its source has no active job; the number of the job it created is its own. -/
structure Guarded (st : Store) (t : Tick) : Prop where
  log : ∃ ws, (∀ w ∈ ws, Write.OfSources w) ∧ t.log = ws ++ t.created.toList.map .insertJob
  inserting : ∀ source, t.phase = .inserting source → Idle st source.id
  created : ∀ source job, t.phase = .finished source (some job) →
    job.sourceId = source.id ∧ Idle st source.id ∧ job.id < st.jobs.next ∧
      ∀ j ∈ st.jobs, j.id ≠ job.id

theorem Guarded.calmer {st st' : Store} {t : Tick} (ht : Guarded st t) (h : Calmer st st') :
    Guarded st' t where
  log := ht.log
  inserting source hphase := h.idle (ht.inserting source hphase)
  created source job hphase := by
    obtain ⟨hsource, hidle, hnext, hids⟩ := ht.created source job hphase
    refine ⟨hsource, h.idle hidle, hnext.trans_le h.next, fun j' hj' => ?_⟩
    obtain ⟨j, hj, hid, -⟩ := h.jobs j' hj'
    rw [← hid]
    exact hids j hj

theorem guarded_quiet {st : Store} {t : Tick} (hlog : ∀ w ∈ t.log, w.OfSources)
    (hinserting : ∀ source, t.phase ≠ .inserting source) (hcreated : t.created = none) :
    Guarded st t where
  log := ⟨t.log, hlog, by simp [hcreated]⟩
  inserting source hphase := absurd hphase (hinserting source)
  created source job hphase := by
    rw [Tick.created, hphase] at hcreated
    cases hcreated

theorem Guarded.ofSources {st : Store} {t : Tick} (ht : Guarded st t) (hnone : t.created = none) :
    ∀ w ∈ t.log, w.OfSources := by
  obtain ⟨ws, hws, hlog⟩ := ht.log
  rw [hnone, Option.toList_none, List.map_nil, List.append_nil] at hlog
  rwa [hlog]

theorem advance_calmer (st : Store) (t : Tick) : Calmer st (t.advance st).1 := by
  have hsame {st' : Store} (hjobs : st'.jobs.rows = st.jobs.rows)
      (hnext : st.jobs.next ≤ st'.jobs.next) : Calmer st st' :=
    ⟨hnext, fun j hj => ⟨j, by rwa [Table.mem_def, ← hjobs], rfl, rfl, id⟩⟩
  unfold Tick.advance
  dsimp only
  split
  · split <;> exact hsame rfl (le_refl _)
  · exact hsame rfl (le_refl _)
  · exact hsame rfl (le_refl _)
  · exact hsame rfl (le_refl _)
  · split <;> exact hsame rfl (le_refl _)
  · exact hsame rfl (le_max_left _ _)
  · exact hsame rfl (le_refl _)

theorem Guarded.advance {st : Store} {t : Tick} (ht : Guarded st t) :
    Guarded (t.advance st).1 (t.advance st).2 := by
  obtain ⟨config, now, phase, log⟩ := t
  cases phase with
  | reading =>
      have hlog := ht.ofSources rfl
      unfold Tick.advance
      dsimp only
      split
      · exact guarded_quiet hlog (by simp) rfl
      · exact guarded_quiet hlog (by simp) rfl
  | creating =>
      have hlog := ht.ofSources rfl
      refine guarded_quiet ?_ (by simp [Tick.advance]) rfl
      simpa [Tick.advance, or_imp, forall_and, Write.OfSources] using hlog
  | assigning source =>
      have hlog := ht.ofSources rfl
      refine guarded_quiet ?_ (by simp [Tick.advance]) rfl
      simp only [Tick.advance]
      split
      · simpa [or_imp, forall_and, Write.OfSources] using hlog
      · exact hlog
  | locking source => exact guarded_quiet (ht.ofSources rfl) (by simp [Tick.advance]) rfl
  | checking source =>
      have hlog := ht.ofSources rfl
      obtain ⟨sources, hview⟩ := Store.replay_sources hlog st
      unfold Tick.advance
      dsimp only at hview ⊢
      rw [hview]
      cases hactive : JobService.activeJob { st with sources } source.id with
      | some jobId => exact guarded_quiet hlog (by simp) rfl
      | none =>
          refine ⟨⟨log, hlog, by simp [Tick.created]⟩, ?_, fun _ _ hphase => by cases hphase⟩
          intro source' hphase
          cases hphase
          exact JobService.activeJob_eq_none.mp hactive
  | inserting source =>
      have hlog := ht.ofSources rfl
      obtain ⟨sources, hview⟩ := Store.replay_sources hlog st
      have hidle := ht.inserting source rfl
      unfold Tick.advance
      dsimp only at hview ⊢
      rw [hview]
      refine ⟨⟨log, hlog, rfl⟩, (fun _ hphase => by cases hphase), ?_⟩
      intro source' job hphase
      cases hphase
      refine ⟨rfl, hidle, ?_, ?_⟩
      · exact (Nat.lt_succ_self _).trans_le (le_max_right _ _)
      · intro j hj
        exact (Table.key_lt_next (show j ∈ st.jobs from hj)).ne
  | finished source job => exact ht

theorem guarded_start (st : Store) (config : SourceConfig) (now : Instant) :
    Guarded st (.start config now) :=
  guarded_quiet (by simp [Tick.start]) (by simp [Tick.start]) rfl

/-- The transactions that have locked a source exclude one another, and the source they have
checked stays idle until they commit. -/
structure Serialised (q : Scheduling) : Prop where
  assigned : q.queue.Assigned
  one : OneActive q.committed
  guarded : ∀ s t, q.ticks s = some t → Guarded q.committed t
  exclusive : ∀ s s' t t' sourceId, q.ticks s = some t → q.ticks s' = some t' → s ≠ s' →
    t.locked = some sourceId → t'.locked ≠ some sourceId
  apart : ∀ s s' t t' job job', q.ticks s = some t → q.ticks s' = some t' → s ≠ s' →
    t.created = some job → t'.created = some job' → job.id ≠ job'.id

theorem serialised_opening (sources : Table Source) : (opening sources).Serialised where
  assigned := assigned_opening sources
  one j hj := absurd hj (Table.not_mem_empty j)
  guarded s t ht := by cases ht
  exclusive s s' t t' sourceId ht := by cases ht
  apart s s' t t' job job' ht := by cases ht

variable {q : Scheduling}

theorem Serialised.worker (hq : q.Serialised) {l : QueueStep} (hl : q.queue.Punctual l)
    (hcreates : l.creates = false) : (q.step (.worker l)).Serialised where
  assigned := hq.assigned.step hl
  one := (hq.assigned.calmer hl hcreates).oneActive hq.one
  guarded s t ht := (hq.guarded s t ht).calmer (hq.assigned.calmer hl hcreates)
  exclusive := hq.exclusive
  apart := hq.apart

theorem Serialised.replace (hq : q.Serialised) {v : Store} (hassigned : (q.withStore v).Assigned)
    (hone : OneActive v) {scheduler : Nat} {tick : Option Tick}
    (hothers : ∀ s t, s ≠ scheduler → q.ticks s = some t → Guarded v t)
    (hown : ∀ t, tick = some t → Guarded v t ∧
      ∀ s t', s ≠ scheduler → q.ticks s = some t' →
        (∀ sourceId, t.locked = some sourceId → t'.locked ≠ some sourceId) ∧
        ∀ job job', t.created = some job → t'.created = some job' → job.id ≠ job'.id) :
    Serialised ⟨q.withStore v, Function.update q.ticks scheduler tick⟩ := by
  have hcases {s : Nat} {t : Tick} (ht : Function.update q.ticks scheduler tick s = some t) :
      (s = scheduler ∧ tick = some t) ∨ (s ≠ scheduler ∧ q.ticks s = some t) := by
    by_cases hs : s = scheduler
    · rw [hs, Function.update_self] at ht
      exact .inl ⟨hs, ht⟩
    · rw [Function.update_of_ne hs] at ht
      exact .inr ⟨hs, ht⟩
  refine ⟨hassigned, hone, ?_, ?_, ?_⟩
  · intro s t ht
    rcases hcases ht with ⟨-, hnew⟩ | ⟨hs, hold⟩
    · exact (hown t hnew).1
    · exact hothers s t hs hold
  · intro s s' t t' sourceId ht ht' hne hlocked hlocked'
    rcases hcases ht with ⟨hs, hnew⟩ | ⟨hs, hold⟩
    · rcases hcases ht' with ⟨hs', -⟩ | ⟨hs', hold'⟩
      · exact hne (hs.trans hs'.symm)
      · exact ((hown t hnew).2 s' t' hs' hold').1 sourceId hlocked hlocked'
    · rcases hcases ht' with ⟨-, hnew'⟩ | ⟨-, hold'⟩
      · exact ((hown t' hnew').2 s t hs hold).1 sourceId hlocked' hlocked
      · exact hq.exclusive s s' t t' sourceId hold hold' hne hlocked hlocked'
  · intro s s' t t' job job' ht ht' hne hjob hjob'
    rcases hcases ht with ⟨hs, hnew⟩ | ⟨hs, hold⟩
    · rcases hcases ht' with ⟨hs', -⟩ | ⟨hs', hold'⟩
      · exact absurd (hs.trans hs'.symm) hne
      · exact ((hown t hnew).2 s' t' hs' hold').2 job job' hjob hjob'
    · rcases hcases ht' with ⟨-, hnew'⟩ | ⟨-, hold'⟩
      · exact (((hown t' hnew').2 s t hs hold).2 job' job hjob' hjob).symm
      · exact hq.apart s s' t t' job job' hold hold' hne hjob hjob'

theorem Serialised.rollback (hq : q.Serialised) (scheduler : Nat) :
    (q.step (.rollback scheduler)).Serialised :=
  hq.replace (v := q.committed) hq.assigned hq.one (fun s t _ ht => hq.guarded s t ht)
    fun t ht => by cases ht

theorem Serialised.fire (hq : q.Serialised) (scheduler : Nat) (config : SourceConfig)
    (now : Instant) : (q.step (.fire scheduler config now)).Serialised := by
  unfold step
  dsimp only
  split
  · exact hq
  · refine hq.replace (v := q.committed) hq.assigned hq.one (fun s t _ ht => hq.guarded s t ht) ?_
    intro t ht
    cases ht
    exact ⟨guarded_start _ config now, fun s t' _ _ =>
      ⟨fun _ hlocked => (by cases hlocked), fun _ _ hjob => (by cases hjob)⟩⟩

theorem assigned_withStore (hq : q.queue.Assigned) {st : Store}
    (hrows : ∀ k j, q.queue.row k = some j → st.jobs.find? k = some j) :
    (q.withStore st).Assigned where
  runs w h hheld hkept := by
    obtain ⟨j, hj, hrunning⟩ := hq.runs w h hheld hkept
    exact ⟨j, hrows _ _ hj, hrunning⟩
  sole := hq.sole

theorem Granted.locked {scheduler : Nat} (hgranted : q.Granted scheduler) {t : Tick}
    (ht : q.ticks scheduler = some t) {sourceId : Nat}
    (hlocked : (t.advance q.committed).2.locked = some sourceId) :
    t.locked = some sourceId ∨ ∀ s t', s ≠ scheduler → q.ticks s = some t' →
      t'.locked ≠ some sourceId := by
  obtain ⟨config, now, phase, log⟩ := t
  cases phase with
  | reading =>
      unfold Tick.advance at hlocked
      dsimp only at hlocked
      split at hlocked <;> cases hlocked
  | creating | assigning => cases hlocked
  | locking source =>
      right
      intro s t' hs ht' hlocked'
      have hsource : source.id = sourceId := Option.some.inj hlocked
      have hheld : (sourceId, RowLock.update) ∈ t'.locks := by simp [Tick.locks, hlocked']
      have hfree := hgranted _ _ ht rfl s t' hs ht' _ hheld
      simp [SourceLock.collides, RowLock.conflicts, hsource] at hfree
  | checking source =>
      left
      unfold Tick.advance at hlocked
      dsimp only at hlocked
      split at hlocked <;> exact hlocked
  | inserting source | finished source job => exact .inl hlocked

theorem advance_created {st : Store} {t : Tick} (ht : Guarded st t) {job : CollectionJob}
    (hjob : (t.advance st).2.created = some job) :
    t.created = some job ∨ job.id = st.jobs.next := by
  obtain ⟨config, now, phase, log⟩ := t
  cases phase with
  | reading | checking =>
      unfold Tick.advance at hjob
      dsimp only at hjob
      split at hjob <;> cases hjob
  | creating | assigning | locking => cases hjob
  | inserting source =>
      right
      obtain ⟨sources, hview⟩ := Store.replay_sources (ht.ofSources rfl) st
      unfold Tick.advance at hjob
      dsimp only at hview hjob
      rw [hview] at hjob
      cases hjob
      rfl
  | finished source created => exact .inl hjob

theorem created_lt {st : Store} {t : Tick} (ht : Guarded st t) {job : CollectionJob}
    (hjob : t.created = some job) : job.id < st.jobs.next := by
  unfold Tick.created at hjob
  split at hjob
  · rename_i source job' hphase
    subst hjob
    exact (ht.created source job hphase).2.2.1
  · cases hjob

theorem Serialised.statement (hq : q.Serialised) {scheduler : Nat}
    (hgranted : q.Granted scheduler) : (q.step (.statement scheduler)).Serialised := by
  unfold step
  dsimp only
  cases ht : q.ticks scheduler with
  | none => exact hq
  | some t =>
      have hguarded := hq.guarded scheduler t ht
      have hcalmer := advance_calmer q.committed t
      have hrows (k : Nat) (j : CollectionJob) (hj : q.queue.row k = some j) :
          (t.advance q.committed).1.jobs.find? k = some j := by
        rw [← hj]
        unfold Tick.advance
        dsimp only
        split
        · split <;> rfl
        all_goals first | rfl | (split <;> rfl)
      refine hq.replace (assigned_withStore hq.assigned hrows) (hcalmer.oneActive hq.one)
        (fun s t' _ ht' => (hq.guarded s t' ht').calmer hcalmer) ?_
      intro t₁ ht₁
      cases ht₁
      refine ⟨hguarded.advance, fun s t' hs ht' => ⟨?_, ?_⟩⟩
      · intro sourceId hlocked
        rcases hgranted.locked ht hlocked with hbefore | hfree
        · exact hq.exclusive scheduler s t t' sourceId ht ht' (Ne.symm hs) hbefore
        · exact hfree s t' hs ht'
      · intro job job' hjob hjob'
        rcases advance_created hguarded hjob with hbefore | hnext
        · exact hq.apart scheduler s t t' job job' ht ht' (Ne.symm hs) hbefore hjob'
        · have hlt : job'.id < q.committed.jobs.next := created_lt (hq.guarded s t' ht') hjob'
          omega

theorem Guarded.commits {st : Store} {t : Tick} (ht : Guarded st t) :
    ∃ sources, Session.replay t.log st =
      { st with sources, jobs := t.created.elim st.jobs st.jobs.put } := by
  obtain ⟨ws, hws, hlog⟩ := ht.log
  obtain ⟨sources, hreplay⟩ := Store.replay_sources hws st
  refine ⟨sources, ?_⟩
  rw [hlog, Session.replay_append, hreplay]
  cases t.created <;> rfl

/-- A new job of a source that this transaction has locked disturbs none of the others. -/
theorem Guarded.others {st : Store} {t t' : Tick} {source : Source} {job : CollectionJob}
    (hphase : t.phase = .finished source (some job)) (ht : Guarded st t) (ht' : Guarded st t')
    (hexclusive : ∀ sourceId, t.locked = some sourceId → t'.locked ≠ some sourceId)
    (hapart : ∀ job', t'.created = some job' → job.id ≠ job'.id) {sources : Table Source} :
    Guarded { st with sources, jobs := st.jobs.put job } t' := by
  have hsource := (ht.created source job hphase).1
  have hidle {sourceId : Nat} (hlocked : t'.locked = some sourceId) (hold : Idle st sourceId) :
      Idle { st with sources, jobs := st.jobs.put job } sourceId := by
    intro j hj hj'
    rcases Table.mem_put.mp hj with rfl | ⟨hj, -⟩
    · exact absurd hlocked (hexclusive sourceId (by simp [Tick.locked, hphase, ← hsource, hj']))
    · exact hold j hj hj'
  refine ⟨ht'.log, fun source' hphase' => ?_, fun source' job' hphase' => ?_⟩
  · exact hidle (by simp [Tick.locked, hphase']) (ht'.inserting source' hphase')
  · obtain ⟨hsource', hold, hnext, hids⟩ := ht'.created source' job' hphase'
    refine ⟨hsource', hidle (by simp [Tick.locked, hphase']) hold,
      hnext.trans_le (le_max_left _ _), fun j hj => ?_⟩
    rcases Table.mem_put.mp hj with rfl | ⟨hj, -⟩
    · exact hapart job' (by simp [Tick.created, hphase'])
    · exact hids j hj

theorem Guarded.oneActive {st : Store} {t : Tick} {source : Source} {job : CollectionJob}
    (hphase : t.phase = .finished source (some job)) (ht : Guarded st t) (hone : OneActive st)
    {sources : Table Source} : OneActive { st with sources, jobs := st.jobs.put job } := by
  obtain ⟨hsource, hidle, -, -⟩ := ht.created source job hphase
  have hold {j : CollectionJob} (hj : j ∈ st.jobs) (hs : j.sourceId = job.sourceId)
      (hactive : j.active = true) : False := by
    have hnot := hidle j hj (hs.trans hsource)
    rw [hactive] at hnot
    cases hnot
  intro j hj j' hj' hs hactive hactive'
  rcases Table.mem_put.mp hj with hnew | ⟨hj, -⟩ <;>
    rcases Table.mem_put.mp hj' with hnew' | ⟨hj', -⟩
  · rw [hnew, hnew']
  · exact (hold hj' (by rw [← hs, hnew]) hactive').elim
  · exact (hold hj (by rw [hs, hnew']) hactive).elim
  · exact hone j hj j' hj' hs hactive hactive'

theorem Serialised.commit (hq : q.Serialised) (scheduler : Nat) :
    (q.step (.commit scheduler)).Serialised := by
  unfold step
  dsimp only
  cases ht : q.ticks scheduler with
  | none => exact hq
  | some t =>
      dsimp only
      split
      · rename_i source created hphase
        have hguarded := hq.guarded scheduler t ht
        obtain ⟨sources, hcommits⟩ := hguarded.commits
        have hcreated : t.created = created := by simp [Tick.created, hphase]
        rw [hcommits, hcreated]
        cases created with
        | none =>
            have hcalmer : Calmer q.committed { q.committed with sources } :=
              ⟨le_refl _, fun j hj => ⟨j, hj, rfl, rfl, id⟩⟩
            exact hq.replace (v := { q.committed with sources })
              (assigned_withStore hq.assigned fun k j hj => hj) (hcalmer.oneActive hq.one)
              (fun s t' _ ht' => (hq.guarded s t' ht').calmer hcalmer) fun t' ht' => by cases ht'
        | some job =>
            refine hq.replace (assigned_withStore hq.assigned fun k j hj => ?_)
              (hguarded.oneActive hphase hq.one) (fun s t' hs ht' => ?_) fun t' ht' => by cases ht'
            · have hput := Table.find?_put q.committed.jobs job k
              have hne : k ≠ job.id := by
                rw [← row_id hj]
                exact (hguarded.created source job hphase).2.2.2 j (Table.find?_eq_some.mp hj).1
              rw [key_job, if_neg hne] at hput
              exact hput.trans hj
            · exact hguarded.others hphase (hq.guarded s t' ht')
                (fun sourceId => hq.exclusive scheduler s t t' sourceId ht ht' (Ne.symm hs))
                fun job' => hq.apart scheduler s t t' job job' ht ht' (Ne.symm hs) hcreated
      · exact hq

theorem Serialised.step (hq : q.Serialised) {l : SchedulingStep} (hl : q.Permitted l) :
    (q.step l).Serialised := by
  cases l with
  | worker l => exact hq.worker hl.1 hl.2
  | fire scheduler config now => exact hq.fire scheduler config now
  | statement scheduler => exact hq.statement hl
  | commit scheduler => exact hq.commit scheduler
  | rollback scheduler => exact hq.rollback scheduler

end Scheduling

open Scheduling

theorem one_job_per_source (sources : Table Source) (labels : List SchedulingStep)
    (h : Always Scheduling.step Permitted (.opening sources) labels) :
    ∀ pre post, labels = pre ++ post →
      OneActive (execute Scheduling.step (.opening sources) pre).committed := by
  intro pre post hsplit
  rw [hsplit] at h
  have hserialised : (execute Scheduling.step (.opening sources) pre).Serialised :=
    (always_append.mp h).1.invariant (serialised_opening sources) fun q l hq hl => hq.step hl
  exact hserialised.one

namespace Scheduling

variable {q : Scheduling}

theorem closed_step {s : Nat} (hclosed : q.ticks s = none) {l : SchedulingStep}
    (hl : ∀ config now, l ≠ .fire s config now) : (q.step l).ticks s = none := by
  have hother {scheduler : Nat} {tick : Option Tick} (hopen : tick ≠ none → s ≠ scheduler) :
      Function.update q.ticks scheduler tick s = none := by
    by_cases hs : s = scheduler
    · rw [hs, Function.update_self]
      by_contra hsome
      exact hopen hsome hs
    · rw [Function.update_of_ne hs, hclosed]
  cases l with
  | worker l => exact hclosed
  | fire scheduler config now =>
      unfold step
      dsimp only
      split
      · exact hclosed
      · exact hother fun _ hs => hl config now (by rw [hs])
  | statement scheduler =>
      unfold step
      dsimp only
      split
      · exact hclosed
      · rename_i t ht
        refine hother fun _ hs => ?_
        rw [← hs, hclosed] at ht
        cases ht
  | commit scheduler =>
      unfold step
      dsimp only
      split
      · exact hclosed
      · split
        · exact hother fun hne => absurd rfl hne
        · exact hclosed
  | rollback scheduler => exact hother fun hne => absurd rfl hne

/-- `Granted`, looked up among these schedulers. -/
def grants (q : Scheduling) (schedulers : List Nat) (scheduler : Nat) : Bool :=
  (q.ticks scheduler).all fun t => t.asks.all fun a => schedulers.all fun s =>
    s == scheduler || (q.ticks s).all fun t' => t'.locks.all fun held => !SourceLock.collides held a

theorem granted_of_grants {schedulers : List Nat} {scheduler : Nat}
    (hclosed : ∀ s, s ∉ schedulers → q.ticks s = none)
    (h : q.grants schedulers scheduler = true) : q.Granted scheduler := by
  intro t asked ht hasks other t' hother ht' held hheld
  have hmem : other ∈ schedulers := by
    by_contra hnot
    rw [hclosed other hnot] at ht'
    cases ht'
  simp only [grants, ht, Option.all_some, hasks, List.all_eq_true, Bool.or_eq_true,
    beq_iff_eq] at h
  have hfree := (h other hmem).resolve_left hother
  rw [ht', Option.all_some, List.all_eq_true] at hfree
  simpa using hfree held hheld

/-- `Permitted`, when only these schedulers ever fire. -/
def permits (q : Scheduling) (schedulers : List Nat) : SchedulingStep → Bool
  | .worker l => decide (q.queue.Punctual l) && !l.creates
  | .fire scheduler config _ =>
      schedulers.contains scheduler && (SourceRepository.byName q.committed config.name).isSome
  | .statement scheduler => q.grants schedulers scheduler
  | .commit _ | .rollback _ => true

theorem always_permitted (schedulers : List Nat) {labels : List SchedulingStep}
    (hclosed : ∀ s, s ∉ schedulers → q.ticks s = none)
    (h : Always step (fun q l => q.permits schedulers l = true) q labels) :
    Always step Permitted q labels := by
  refine h.imp (I := fun q => ∀ s, s ∉ schedulers → q.ticks s = none) hclosed ?_ ?_
  · intro q l hclosed hl s hs
    refine closed_step (hclosed s hs) fun config now heq => hs ?_
    rw [heq, permits, Bool.and_eq_true] at hl
    exact List.contains_iff_mem.mp hl.1
  · intro q l hclosed hl
    cases l with
    | worker l => simpa [permits, Permitted] using hl
    | fire scheduler config now =>
        rw [permits, Bool.and_eq_true] at hl
        exact hl.2
    | statement scheduler => exact granted_of_grants hclosed hl
    | commit scheduler | rollback scheduler => trivial

/-- Two schedulers tick at once; the second one waits for the first and finds its job. When a
worker has finished that job the first one queues another. -/
def contended : List SchedulingStep :=
  let config : SourceConfig := ⟨"csv".toList, "csv".toList, true, 0, none, []⟩
  [.fire 1 config 0, .fire 2 config 0, .statement 1, .statement 2, .statement 2, .statement 1,
    .statement 1, .statement 1, .statement 1, .commit 1, .worker (.claim 1 "one".toList 1 []),
    .statement 2, .statement 2, .commit 2, .fire 1 config 5, .worker (.complete 1 1 6),
    .statement 1, .statement 1, .statement 1, .statement 1, .statement 1, .commit 1]

end Scheduling

theorem one_job_per_source_contended :
    OneActive (execute Scheduling.step
      (.opening (Table.empty.put ⟨1, "csv".toList, "csv".toList, 0, true, []⟩))
      contended).committed :=
  one_job_per_source _ contended
    (always_permitted [1, 2] (fun _ _ => rfl) (by decide +kernel)) contended []
    (by simp)

end LeadPipe
