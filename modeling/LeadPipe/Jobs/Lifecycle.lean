import LeadPipe.Jobs.Workers

/-!
# The life of a job

The states a job passes through when every worker that has lost its job to `recover_stale`
keeps its hands off it, and what one worker that does not can do.
-/

namespace LeadPipe

open Framework

namespace JobStatus

/-- The arrows of the documented diagram. -/
inductive Edge : JobStatus → JobStatus → Prop
  | claimed : Edge .pending .running
  | finished : Edge .running .completed
  | returned : Edge .running .pending
  | exhausted : Edge .running .failed

def terminal (s : JobStatus) : Prop := s = .completed ∨ s = .failed

theorem Edge.not_terminal {s s' : JobStatus} (h : Edge s s') : ¬ s.terminal := by
  cases h <;> simp [terminal]

end JobStatus

namespace QueueState

variable {q : QueueState}

/-- The worker holds a job that was taken away from it. -/
def late (q : QueueState) (worker : Nat) : Bool := (q.held worker).any Holding.takenAway

/-- The job the worker holds is running, for this worker or for another one. -/
def occupied (q : QueueState) (worker : Nat) : Bool :=
  (q.held worker).any fun h => (q.row h.job.id).any CollectionJob.running

/-- No late worker completes or fails its job, and none heartbeats it while it runs. -/
def Punctual (q : QueueState) : QueueStep → Prop
  | .fail worker .. => q.late worker = false
  | .complete worker .. => q.late worker = false
  | .heartbeat worker _ => (q.late worker && q.occupied worker) = false
  | _ => True

instance : ∀ l, Decidable (q.Punctual l)
  | .fail .. | .complete .. | .heartbeat .. => inferInstanceAs (Decidable (_ = _))
  | .enqueue .. | .claim .. | .recoverStale .. | .crash .. => .isTrue trivial

/-- A step moves jobs along the diagram, and not at all when its worker has lost its claim. -/
structure Lifecycle (q : QueueState) (l : QueueStep) : Prop where
  edges : ∀ k j j', q.row k = some j → (q.step l).row k = some j' →
    j'.status = j.status ∨ j.status.Edge j'.status
  apart : ∀ w h, l.worker = some w → q.held w = some h → h.takenAway = true →
    ∀ k, (q.step l).row k = q.row k

/-- Who still has its claim holds a running job, and nobody else does. -/
structure Assigned (q : QueueState) : Prop where
  runs : ∀ w h, q.held w = some h → h.takenAway = false →
    ∃ j, q.row h.job.id = some j ∧ j.status = .running
  sole : ∀ w w' h h', q.held w = some h → q.held w' = some h' → h.takenAway = false →
    h'.takenAway = false → h.job.id = h'.job.id → w = w'

theorem assigned_opening (sources : Table Source) : (opening sources).Assigned where
  runs w h hheld := by simp [opening] at hheld
  sole w w' h h' hheld := by simp [opening] at hheld

theorem late_of_held {w : Nat} {h : Holding} (hheld : q.held w = some h) :
    q.late w = h.takenAway := by
  simp [late, hheld]

theorem held_fail {w : Nat} {error : Text} {now : Instant} {jitter : ℚ} {h : Holding}
    (hheld : q.held w = some h) : (q.step (.fail w error now jitter)).held w = none := by
  simp [step, hheld, drop]

theorem held_complete {w : Nat} {startedAt finishedAt : Instant} {h : Holding}
    (hheld : q.held w = some h) : (q.step (.complete w startedAt finishedAt)).held w = none := by
  simp [step, hheld, drop]

theorem failedRow_status (c : ClaimedJob) (error : Text) (now : Instant) (jitter : ℚ)
    (j : CollectionJob) :
    (Queue.failedRow c error now jitter j).status = .pending ∨
      (Queue.failedRow c error now jitter j).status = .failed := by
  unfold Queue.failedRow
  split
  · exact .inl rfl
  · exact .inr rfl

/-- The job of a claim that is not lost, before a punctual step, is running for its worker alone;
so every change of a row by a worker's completion or failure starts from `RUNNING`. -/
theorem Assigned.running_of (hq : q.Assigned) {w : Nat} {h : Holding} {j : CollectionJob}
    (hheld : q.held w = some h) (hpunctual : q.late w = false) (hown : h.job.id = j.id)
    (hrow : q.row j.id = some j) : j.status = .running := by
  rw [late_of_held hheld] at hpunctual
  obtain ⟨found, hfound, hrunning⟩ := hq.runs w h hheld hpunctual
  rw [hown, hrow] at hfound
  cases hfound
  exact hrunning

theorem Assigned.edges (hq : q.Assigned) {l : QueueStep} (hl : q.Punctual l) {k : Nat}
    {j j' : CollectionJob} (hj : q.row k = some j) (hj' : (q.step l).row k = some j') :
    j'.status = j.status ∨ j.status.Edge j'.status := by
  obtain ⟨found, hfound, hstep⟩ := row_step hj l
  rw [hj'] at hfound
  cases hfound
  have hrow : q.row j.id = some j := by rw [row_id hj]; exact hj
  cases hstep with
  | same => exact .inl rfl
  | claimed label idle handed own runnable =>
      rw [CollectionJob.pending_of_runnable runnable]
      exact .inr .claimed
  | beaten => exact .inl rfl
  | swept label stale =>
      have hrunning : j.status = .running := by
        rw [← CollectionJob.running_iff]
        exact (Bool.and_eq_true_iff.mp stale).1
      rw [hrunning]
      right
      split
      · exact .exhausted
      · exact .returned
  | failed label holds own =>
      subst label
      rw [hq.running_of holds hl own hrow]
      right
      rcases failedRow_status _ _ _ _ j with hs | hs <;> rw [hs]
      · exact .returned
      · exact .exhausted
  | completed label holds own =>
      subst label
      rw [hq.running_of holds hl own hrow]
      exact .inr .finished

/-- A punctual step of a worker that has lost its claim is a heartbeat nobody notices, or the
worker giving up. -/
theorem Punctual.apart {l : QueueStep} (hl : q.Punctual l) {w : Nat} {h : Holding}
    (hworker : l.worker = some w) (hheld : q.held w = some h) (htaken : h.takenAway = true)
    (k : Nat) : (q.step l).row k = q.row k := by
  have hlate : q.late w = true := by rw [late_of_held hheld, htaken]
  cases l with
  | enqueue | recoverStale => cases hworker
  | claim worker name now locked =>
      cases hworker
      simp [step, hheld]
  | heartbeat worker now =>
      cases hworker
      have hidle : q.occupied w = false := by simpa [Punctual, hlate] using hl
      simp only [step, hheld, row, Queue.find?_heartbeat]
      by_cases hk : k = h.job.id
      · rw [if_pos hk]
        cases hj : q.store.jobs.find? k with
        | none => rfl
        | some j =>
            have hrest : j.running = false := by
              simpa [occupied, hheld, row, ← hk, hj] using hidle
            simp [hrest]
      · rw [if_neg hk]
  | fail worker error now jitter =>
      cases hworker
      have hnot : q.late w = false := hl
      simp [hlate] at hnot
  | complete worker startedAt finishedAt =>
      cases hworker
      have hnot : q.late w = false := hl
      simp [hlate] at hnot
  | crash worker => rfl

theorem Assigned.lifecycle (hq : q.Assigned) {l : QueueStep} (hl : q.Punctual l) :
    q.Lifecycle l where
  edges _ _ _ hj hj' := hq.edges hl hj hj'
  apart _ _ hworker hheld htaken := hl.apart hworker hheld htaken

theorem Assigned.still_running (hq : q.Assigned) {l : QueueStep} (hl : q.Punctual l) {w : Nat}
    {h h₀ : Holding} (hafter : (q.step l).held w = some h) (hbefore : q.held w = some h₀)
    (hkept₀ : h₀.takenAway = false)
    (hswept : ∀ staleAfter now failedAt, l = .recoverStale staleAfter now failedAt →
      q.sweeps staleAfter now h₀.job.id = false) :
    ∃ j, (q.step l).row h₀.job.id = some j ∧ j.status = .running := by
  obtain ⟨j, hj, hrunning⟩ := hq.runs w h₀ hbefore hkept₀
  obtain ⟨j', hj', hstep⟩ := row_step hj l
  refine ⟨j', hj', ?_⟩
  -- a completion or a failure of this job would be this worker's own, and end its claim
  have hsame {w' : Nat} {h' : Holding} (hheld' : q.held w' = some h') (hlate : q.late w' = false)
      (hown : h'.job.id = j.id) : w' = w := by
    rw [late_of_held hheld'] at hlate
    exact hq.sole w' w h' h₀ hheld' hbefore hlate hkept₀ (by rw [hown, row_id hj])
  cases hstep with
  | same => exact hrunning
  | claimed label idle handed own runnable =>
      rw [CollectionJob.pending_of_runnable runnable] at hrunning
      cases hrunning
  | beaten => exact hrunning
  | swept label stale =>
      have hsweeps := hswept _ _ _ label
      rw [sweeps, hj, Option.any_some, stale] at hsweeps
      cases hsweeps
  | failed label holds own =>
      subst label
      obtain rfl := hsame holds hl own
      rw [held_fail hbefore] at hafter
      cases hafter
  | completed label holds own =>
      subst label
      obtain rfl := hsame holds hl own
      rw [held_complete hbefore] at hafter
      cases hafter

/-- A job that is handed out was pending, so it is not the job of a claim that is not lost. -/
theorem Assigned.claim_apart (hq : q.Assigned) {w : Nat} {name : Text} {now : Instant}
    {locked : List Nat} {c : ClaimedJob} {h : Holding}
    (hclaim : (Queue.claim q.store name now locked).1 = some c) (hheld : q.held w = some h)
    (hkept : h.takenAway = false) : c.id ≠ h.job.id := by
  intro hid
  obtain ⟨j, hj, hrun, -⟩ := Queue.claim_eq_some hclaim
  obtain ⟨j', hj', hrunning⟩ := hq.runs w h hheld hkept
  rw [hid] at hj
  have hsame : j = j' := Option.some.inj (hj.symm.trans hj')
  rw [← hsame, CollectionJob.pending_of_runnable hrun] at hrunning
  cases hrunning

theorem Assigned.step (hq : q.Assigned) {l : QueueStep} (hl : q.Punctual l) :
    (q.step l).Assigned := by
  constructor
  · intro w h hafter hkept
    rcases kept_step hafter hkept with
      ⟨name, now, locked, rfl, hidle, hc⟩ | ⟨h₀, hbefore, hjob, hkept₀, hswept⟩
    · obtain ⟨j, -, -, hrows⟩ := Queue.claim_eq_some hc
      refine ⟨j.claimed name now, ?_, rfl⟩
      simp only [QueueState.step, hidle, row]
      rw [hrows, if_pos rfl]
    · rw [hjob]
      exact hq.still_running hl hafter hbefore hkept₀ hswept
  · intro w w' h h' hafter hafter' hkept hkept' hid
    rcases kept_step hafter hkept with
      ⟨name, now, locked, hl₁, hidle, hc⟩ | ⟨h₀, hbefore, hjob, hkept₀, -⟩
    · rcases kept_step hafter' hkept' with
        ⟨name', now', locked', hl₂, hidle', hc'⟩ | ⟨h₀', hbefore', hjob', hkept₀', -⟩
      · rw [hl₁] at hl₂
        cases hl₂
        rfl
      · exact absurd (by rw [hid, hjob']) (hq.claim_apart hc hbefore' hkept₀')
    · rcases kept_step hafter' hkept' with
        ⟨name', now', locked', hl₂, hidle', hc'⟩ | ⟨h₀', hbefore', hjob', hkept₀', -⟩
      · exact absurd (by rw [← hid, hjob]) (hq.claim_apart hc' hbefore hkept₀)
      · exact hq.sole w w' h₀ h₀' hbefore hbefore' hkept₀ hkept₀' (by rw [← hjob, ← hjob', hid])

theorem terminal_stays {q : QueueState} {labels : List QueueStep}
    (h : Always step Lifecycle q labels) {k : Nat} {j : CollectionJob} (hj : q.row k = some j)
    (hterminal : j.status.terminal) :
    ∃ j', (execute step q labels).row k = some j' ∧ j'.status = j.status := by
  induction labels generalizing q j with
  | nil => exact ⟨j, hj, rfl⟩
  | cons l labels ih =>
      obtain ⟨j₁, hj₁, -⟩ := row_step hj l
      have hsame : j₁.status = j.status := by
        rcases h.1.edges k j j₁ hj hj₁ with hs | hedge
        · exact hs
        · exact absurd hterminal hedge.not_terminal
      obtain ⟨j', hj', hs⟩ := ih h.2 hj₁ (by rw [hsame]; exact hterminal)
      exact ⟨j', hj', hs.trans hsame⟩

end QueueState

open QueueState

theorem jobs_follow_diagram (sources : Table Source) (labels : List QueueStep)
    (h : Always step Punctual (opening sources) labels) :
    Always step Lifecycle (opening sources) labels ∧
      ∀ pre mid post k j, labels = pre ++ mid ++ post →
        (execute step (opening sources) pre).row k = some j → j.status.terminal →
        ∃ j', (execute step (opening sources) (pre ++ mid)).row k = some j' ∧
          j'.status = j.status := by
  have hlife : Always step Lifecycle (opening sources) labels :=
    h.imp (assigned_opening sources) (fun q l hq hl => hq.step hl) fun q l hq hl =>
      hq.lifecycle hl
  refine ⟨hlife, ?_⟩
  intro pre mid post k j hsplit hj hterminal
  rw [hsplit] at hlife
  have hmid := (always_append.mp (always_append.mp hlife).1).2
  rw [execute_append]
  exact terminal_stays hmid hj hterminal

/-- A run with a recovery: the first worker dies, the second one finishes the job. -/
theorem jobs_follow_diagram_recovered :
    Always step Lifecycle (opening .empty)
      [.enqueue 1 3 0, .claim 1 "one".toList 0 [], .heartbeat 1 10000000,
        .recoverStale 60 80000000 80000000, .claim 2 "two".toList 81000000 [],
        .heartbeat 2 91000000, .complete 2 81000000 95000000, .crash 1] :=
  (jobs_follow_diagram .empty _ (by decide +kernel)).1

/-- The first worker is only slow: meanwhile the second one completes the job. -/
def overtaken : List QueueStep :=
  [.enqueue 1 3 0, .claim 1 "one".toList 0 [], .recoverStale 60 61000000 61000000,
    .claim 2 "two".toList 62000000 [], .complete 2 62000000 70000000]

/-- When it fails at last, the completed job is pending again. -/
theorem jobs_leave_completed :
    ¬ Always step Lifecycle (opening .empty)
      (overtaken ++ [.fail 1 "SourceError: unreachable".toList 71000000 0]) := by
  intro h
  have hlast := h.step_at overtaken _ []
  have hbefore : ((execute step (opening .empty) overtaken).row 1).map CollectionJob.status =
      some .completed := by decide +kernel
  have hafter : (((execute step (opening .empty) overtaken).step
      (.fail 1 "SourceError: unreachable".toList 71000000 0)).row 1).map CollectionJob.status =
      some .pending := by decide +kernel
  obtain ⟨j, hj, hs⟩ := Option.map_eq_some_iff.mp hbefore
  obtain ⟨j', hj', hs'⟩ := Option.map_eq_some_iff.mp hafter
  have hedge := hlast.edges 1 j j' hj hj'
  rw [hs, hs'] at hedge
  rcases hedge with heq | hedge
  · cases heq
  · cases hedge

end LeadPipe
