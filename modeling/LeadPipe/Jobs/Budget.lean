import LeadPipe.Jobs.Workers

/-!
# The retry budget

`claim` never looks at `max_attempts`; it is `fail` and `recover_stale` that keep exhausted jobs
out of the queue. `recover_stale` compares the stored attempts with the budget, `fail` the
attempts its worker was handed, and the two differ once the job has been claimed again.
-/

namespace LeadPipe

open Framework

namespace QueueState

variable {q : QueueState}

def timesClaimed (jobId : Nat) : QueueState → List QueueStep → Nat
  | _, [] => 0
  | q, l :: labels =>
      (if q.handed l = some jobId then 1 else 0) + timesClaimed jobId (q.step l) labels

/-- A failure that requeues a job finds attempts left on its row. -/
def Spares (q : QueueState) : QueueStep → Prop
  | .fail worker .. =>
      ∀ h, q.held worker = some h → h.job.attempts < h.job.maxAttempts →
        ∀ j, q.row h.job.id = some j → 1 ≤ j.maxAttempts → j.attempts < j.maxAttempts
  | _ => True

/-- Attempts within the budget, and below it while the job waits. -/
structure Budgeted (j : CollectionJob) : Prop where
  bounded : j.attempts ≤ j.maxAttempts
  waiting : j.status = .pending → j.attempts < j.maxAttempts

/-- Every job that may be attempted at all is within its budget. -/
def Solvent (q : QueueState) : Prop :=
  ∀ k j, q.row k = some j → 1 ≤ j.maxAttempts → Budgeted j

theorem RowStep.maxAttempts {l : QueueStep} {j j' : CollectionJob} (h : RowStep q l j j') :
    j'.maxAttempts = j.maxAttempts := by
  cases h with
  | same | claimed | beaten | completed => rfl
  | swept => split <;> rfl
  | failed =>
      unfold Queue.failedRow
      split <;> rfl

theorem attempts_step {k : Nat} {j j' : CollectionJob} {l : QueueStep} (hj : q.row k = some j)
    (hj' : (q.step l).row k = some j') :
    j'.attempts = j.attempts + if q.handed l = some k then 1 else 0 := by
  have hid := row_id hj
  obtain ⟨found, hfound, hstep⟩ := row_step hj l
  rw [hj'] at hfound
  cases hfound
  cases hstep with
  | same passed =>
      rw [hid] at passed
      rw [if_neg passed, Nat.add_zero]
  | claimed label idle hc own =>
      have hhanded : q.handed l = some k := by
        rw [label, q.handed_claim idle, hc, Option.map_some, own, hid]
      rw [if_pos hhanded]
      rfl
  | beaten label => simp [label, handed, CollectionJob.beaten]
  | swept label =>
      simp only [label, handed]
      split <;> rfl
  | failed label =>
      simp only [label, handed]
      unfold Queue.failedRow
      split <;> rfl
  | completed label => simp [label, handed, CollectionJob.completed]

theorem handed_row {k : Nat} {l : QueueStep} (h : q.handed l = some k) : (q.row k).isSome := by
  cases l with
  | claim worker name now locked =>
      cases hheld : q.held worker with
      | some held => simp [handed, hheld] at h
      | none =>
          rw [q.handed_claim hheld] at h
          obtain ⟨c, hc, rfl⟩ := Option.map_eq_some_iff.mp h
          obtain ⟨j, hj, -⟩ := Queue.claim_eq_some hc
          rw [row, hj]
          rfl
  | _ => simp [handed] at h

theorem attempts_run {k : Nat} {labels : List QueueStep} {q : QueueState} {j j' : CollectionJob}
    (hj : q.row k = some j) (hj' : (execute step q labels).row k = some j') :
    j'.attempts = j.attempts + timesClaimed k q labels := by
  induction labels generalizing q j with
  | nil =>
      rw [execute_nil, hj] at hj'
      cases hj'
      rfl
  | cons l labels ih =>
      obtain ⟨j₁, hj₁, -⟩ := row_step hj l
      have hone := attempts_step hj hj₁
      have hrest := ih hj₁ hj'
      rw [timesClaimed]
      omega

/-- A job created in a run starts without attempts, so they count the times it was handed out. -/
theorem attempts_eq_timesClaimed {k : Nat} {labels : List QueueStep} {q : QueueState}
    {j : CollectionJob} (hnone : q.row k = none) (hj : (execute step q labels).row k = some j) :
    j.attempts = timesClaimed k q labels := by
  induction labels generalizing q with
  | nil =>
      rw [execute_nil, hnone] at hj
      cases hj
  | cons l labels ih =>
      have hfirst : q.handed l ≠ some k := by
        intro hhanded
        have := handed_row hhanded
        simp [hnone] at this
      rw [timesClaimed, if_neg hfirst, Nat.zero_add]
      cases hnew : (q.step l).row k with
      | none => exact ih hnew hj
      | some j₁ =>
          obtain ⟨sourceId, maxAttempts, now, -, rfl⟩ := row_new hnone hnew
          have hrun := attempts_run hnew hj
          simpa [JobRepository.blank] using hrun

theorem Solvent.step (hq : q.Solvent) {l : QueueStep} (hl : q.Spares l) : (q.step l).Solvent := by
  intro k j' hj' hmax
  cases hbefore : q.row k with
  | none =>
      obtain ⟨sourceId, maxAttempts, now, -, rfl⟩ := row_new hbefore hj'
      exact ⟨Nat.zero_le _, fun _ => hmax⟩
  | some j =>
      obtain ⟨found, hfound, hstep⟩ := row_step hbefore l
      rw [hj'] at hfound
      cases hfound
      rw [hstep.maxAttempts] at hmax
      obtain ⟨hbounded, hwaiting⟩ := hq k j hbefore hmax
      cases hstep with
      | same => exact ⟨hbounded, hwaiting⟩
      | claimed label idle hc own runnable =>
          refine ⟨hwaiting (CollectionJob.pending_of_runnable runnable), ?_⟩
          intro hstatus
          cases hstatus
      | beaten => exact ⟨hbounded, hwaiting⟩
      | swept label stale =>
          by_cases he : j.exhausted = true
          · rw [if_pos he]
            refine ⟨hbounded, ?_⟩
            intro hstatus
            cases hstatus
          · rw [if_neg he]
            have hleft : j.attempts < j.maxAttempts := by
              simpa [CollectionJob.exhausted] using he
            exact ⟨hbounded, fun _ => hleft⟩
      | failed label holds own =>
          subst label
          unfold Queue.failedRow
          split
          · rename_i hretry
            have hrow : q.row j.id = some j := by rw [row_id hbefore]; exact hbefore
            rw [← own] at hrow
            exact ⟨hbounded, fun _ => hl _ holds hretry j hrow hmax⟩
          · refine ⟨hbounded, ?_⟩
            intro hstatus
            cases hstatus
      | completed =>
          refine ⟨hbounded, ?_⟩
          intro hstatus
          cases hstatus

theorem solvent_opening (sources : Table Source) : (opening sources).Solvent := by
  intro k j hj
  rw [row_opening] at hj
  cases hj

/-- A requeueing failure leaves a pending job with the attempts its row had. -/
theorem Spares.of_solvent {l : QueueStep} (h : (q.step l).Solvent) : q.Spares l := by
  cases l with
  | fail worker error now jitter =>
      intro held hheld hretry j hj hmax
      have hafter : (q.step (.fail worker error now jitter)).row held.job.id =
          some (Queue.failedRow held.job error now jitter j) := by
        simp only [step, hheld, row, Queue.find?_fail, if_true]
        rw [show q.store.jobs.find? held.job.id = some j from hj]
        rfl
      have hbudget := h _ _ hafter
      unfold Queue.failedRow at hbudget
      rw [if_pos hretry] at hbudget
      exact (hbudget hmax).waiting rfl
  | _ => trivial

end QueueState

open QueueState

theorem attempts_within_budget (sources : Table Source) (labels : List QueueStep) :
    (∀ done, done <+: labels → ∀ k j, (execute step (opening sources) done).row k = some j →
      1 ≤ j.maxAttempts → j.attempts ≤ j.maxAttempts ∧
        (j.status = .pending → j.attempts < j.maxAttempts) ∧
        timesClaimed k (opening sources) done ≤ j.maxAttempts) ↔
      Always step Spares (opening sources) labels := by
  constructor
  · intro h
    refine always_of_split fun pre l post hsplit => Spares.of_solvent ?_
    have hdone : pre ++ [l] <+: labels := ⟨post, by rw [hsplit]; simp⟩
    intro k j hj hmax
    have hrun : (execute step (opening sources) (pre ++ [l])).row k = some j := by
      rwa [execute_append]
    obtain ⟨hbounded, hwaiting, -⟩ := h _ hdone k j hrun hmax
    exact ⟨hbounded, hwaiting⟩
  · intro h done hdone k j hj hmax
    have hsolvent := (h.of_prefix hdone).invariant (solvent_opening sources)
      fun q l hq hl => hq.step hl
    have hbudget := hsolvent k j hj hmax
    refine ⟨hbudget.bounded, hbudget.waiting, ?_⟩
    rw [← attempts_eq_timesClaimed (row_opening sources k) hj]
    exact hbudget.bounded

/-- Two attempts allowed: the first worker is swept, the second one holds the last attempt, and
only then does the first one fail and requeue the job. -/
theorem attempts_exceed_budget :
    ¬ ∀ done, done <+: [.enqueue 1 2 0, .claim 1 "one".toList 0 [],
        .recoverStale 60 61000000 61000000, .claim 2 "two".toList 62000000 [],
        .fail 1 "SourceError: unreachable".toList 63000000 0,
        .claim 3 "three".toList 80000000 []] →
      ∀ k j, (execute step (opening .empty) done).row k = some j → 1 ≤ j.maxAttempts →
        j.attempts ≤ j.maxAttempts ∧ (j.status = .pending → j.attempts < j.maxAttempts) ∧
          timesClaimed k (opening .empty) done ≤ j.maxAttempts := by
  intro h
  have hlast := h _ List.prefix_rfl 1
  have hafter : ((execute step (opening .empty) [.enqueue 1 2 0, .claim 1 "one".toList 0 [],
      .recoverStale 60 61000000 61000000, .claim 2 "two".toList 62000000 [],
      .fail 1 "SourceError: unreachable".toList 63000000 0,
      .claim 3 "three".toList 80000000 []]).row 1).map
        (fun j => (j.attempts, j.maxAttempts)) = some (3, 2) := by decide +kernel
  obtain ⟨j, hj, hs⟩ := Option.map_eq_some_iff.mp hafter
  obtain ⟨hattempts, hbudget⟩ := Prod.mk.inj hs
  have hbounded := (hlast j hj (by omega)).1
  omega

end LeadPipe
