import LeadPipe.Jobs.Lifecycle

/-!
# One worker for a job

When every live worker refreshes the heartbeat of its job in time, no sweep takes a job from a
worker that is still at it, and so no job is ever in two hands.
-/

namespace LeadPipe

open Framework QueueState

/-- The queue, and when each worker last wrote the `heartbeat_at` of the job it holds: by the
claim itself or by a heartbeat. -/
structure WatchedQueue where
  queue : QueueState
  refreshed : Nat → Instant

namespace WatchedQueue

/-- The clock readings of a queue nobody has claimed from do not matter. -/
def opening (sources : Table Source) : WatchedQueue := ⟨QueueState.opening sources, fun _ => 0⟩

def step (q : WatchedQueue) (l : QueueStep) : WatchedQueue where
  queue := q.queue.step l
  refreshed :=
    match l with
    | .claim worker _ now _ =>
        match q.queue.held worker with
        | some _ => q.refreshed
        | none => Function.update q.refreshed worker now
    | .heartbeat worker now => Function.update q.refreshed worker now
    | _ => q.refreshed

/-- When a sweep looks, every live worker that holds a job has refreshed it within the interval. -/
def Refreshing (q : WatchedQueue) : QueueStep → Prop
  | .recoverStale staleAfter now _ =>
      ∀ w h, q.queue.held w = some h → now - timedelta staleAfter ≤ q.refreshed w
  | _ => True

/-- No job is in the hands of two live workers. -/
def Exclusive (q : WatchedQueue) : Prop :=
  ∀ w w' h h', q.queue.held w = some h → q.queue.held w' = some h' →
    h.job.id = h'.job.id → w = w'

theorem execute_queue (q : WatchedQueue) (labels : List QueueStep) :
    (execute step q labels).queue = execute QueueState.step q.queue labels := by
  induction labels generalizing q with
  | nil => rfl
  | cons l labels ih => exact ih (q.step l)

/-- Whoever holds a job has its claim, and the row says when the worker last refreshed it. -/
structure Guarded (q : WatchedQueue) : Prop where
  assigned : q.queue.Assigned
  kept : ∀ w h, q.queue.held w = some h → h.takenAway = false
  beats : ∀ w h j, q.queue.held w = some h → q.queue.row h.job.id = some j →
    j.heartbeatAt = some (q.refreshed w)

variable {q : WatchedQueue}

theorem guarded_opening (sources : Table Source) : (opening sources).Guarded where
  assigned := assigned_opening sources
  kept w h hheld := by simp [opening, QueueState.opening] at hheld
  beats w h j hheld := by simp [opening, QueueState.opening] at hheld

namespace Guarded

theorem not_late (hq : q.Guarded) (w : Nat) : q.queue.late w = false := by
  cases hheld : q.queue.held w with
  | none => simp [late, hheld]
  | some h => rw [late_of_held hheld, hq.kept w h hheld]

theorem punctual (hq : q.Guarded) (l : QueueStep) : q.queue.Punctual l := by
  cases l with
  | fail worker | complete worker => exact hq.not_late worker
  | heartbeat worker => simp [Punctual, hq.not_late worker]
  | enqueue | claim | recoverStale | crash => trivial

theorem not_silent (hq : q.Guarded) {staleAfter : ℚ} {now failedAt : Instant}
    (hl : q.Refreshing (.recoverStale staleAfter now failedAt)) {w : Nat} {h : Holding}
    {j : CollectionJob} (hheld : q.queue.held w = some h)
    (hrow : q.queue.row h.job.id = some j) : j.silent (now - timedelta staleAfter) = false := by
  have hbeat := hq.beats w h j hheld hrow
  have hrefreshed := hl w h hheld
  simpa only [CollectionJob.silent, hbeat, Option.all_some, decide_eq_false_iff_not, not_lt]
    using hrefreshed

theorem not_swept (hq : q.Guarded) {staleAfter : ℚ} {now failedAt : Instant}
    (hl : q.Refreshing (.recoverStale staleAfter now failedAt)) {w : Nat} {h : Holding}
    (hheld : q.queue.held w = some h) : q.queue.sweeps staleAfter now h.job.id = false := by
  obtain ⟨j, hrow, -⟩ := hq.assigned.runs w h hheld (hq.kept w h hheld)
  rw [sweeps, hrow, Option.any_some, hq.not_silent hl hheld hrow, Bool.and_false]

theorem exclusive (hq : q.Guarded) : q.Exclusive := by
  intro w w' h h' hheld hheld' hid
  exact hq.assigned.sole w w' h h' hheld hheld' (hq.kept w h hheld) (hq.kept w' h' hheld') hid

theorem not_taken (hq : q.Guarded) {l : QueueStep} (hl : q.Refreshing l) {w : Nat} {h : Holding}
    (hheld : q.queue.held w = some h) : q.queue.takes l h.job.id = false := by
  cases l with
  | recoverStale => exact hq.not_swept hl hheld
  | enqueue | claim | heartbeat | fail | complete | crash => rfl

theorem step_kept (hq : q.Guarded) {l : QueueStep} (hl : q.Refreshing l) {w : Nat} {h : Holding}
    (hafter : (q.step l).queue.held w = some h) : h.takenAway = false := by
  rcases held_step hafter with ⟨name, now, locked, -, -, -, htaken⟩ | ⟨h₀, hbefore, -, htaken⟩
  · exact htaken
  · rw [htaken, hq.kept w h₀ hbefore, hq.not_taken hl hbefore, Bool.or_self]

theorem refreshed_step {l : QueueStep} {w : Nat} {h : Holding}
    (hheld : q.queue.held w = some h) (hl : ∀ now, l ≠ .heartbeat w now) :
    (q.step l).refreshed w = q.refreshed w := by
  cases l with
  | claim worker name now locked =>
      cases hw : q.queue.held worker with
      | some held => simp [step, hw]
      | none =>
          have hne : w ≠ worker := by
            rintro rfl
            rw [hw] at hheld
            cases hheld
          simp [step, hw, Function.update_of_ne hne]
  | heartbeat worker now =>
      have hne : w ≠ worker := fun heq => hl now (by rw [heq])
      simp [step, Function.update_of_ne hne]
  | enqueue | recoverStale | fail | complete | crash => rfl

theorem row_beats (hq : q.Guarded) {l : QueueStep} (hl : q.Refreshing l) {w : Nat}
    {h h₀ : Holding} (hafter : (q.queue.step l).held w = some h)
    (hbefore : q.queue.held w = some h₀) (hnot : ∀ now, l ≠ .heartbeat w now)
    {j j' : CollectionJob} (hrow : q.queue.row h₀.job.id = some j)
    (hrow' : (q.queue.step l).row h₀.job.id = some j') : j'.heartbeatAt = j.heartbeatAt := by
  obtain ⟨found, hfound, hstep⟩ := row_step hrow l
  rw [hrow'] at hfound
  cases hfound
  have hsame {w' : Nat} {h' : Holding} (hheld' : q.queue.held w' = some h')
      (hown : h'.job.id = j.id) : w' = w :=
    hq.exclusive w' w h' h₀ hheld' hbefore (by rw [hown, row_id hrow])
  cases hstep with
  | same => rfl
  | claimed label idle handed own runnable =>
      exact absurd (own.trans (row_id hrow))
        (hq.assigned.claim_apart handed hbefore (hq.kept w h₀ hbefore))
  | beaten label holds own =>
      obtain rfl := hsame holds own
      exact absurd label (hnot _)
  | swept label stale =>
      subst label
      rw [hq.not_silent hl hbefore hrow, Bool.and_false] at stale
      cases stale
  | failed label holds own =>
      subst label
      obtain rfl := hsame holds own
      rw [held_fail hbefore] at hafter
      cases hafter
  | completed label holds own =>
      subst label
      obtain rfl := hsame holds own
      rw [held_complete hbefore] at hafter
      cases hafter

theorem row_heartbeat {w : Nat} {now : Instant} {h : Holding} {j j' : CollectionJob}
    (hheld : q.queue.held w = some h) (hrow : q.queue.row h.job.id = some j)
    (hrunning : j.status = .running)
    (hrow' : (q.queue.step (.heartbeat w now)).row h.job.id = some j') :
    j' = j.beaten now := by
  have hbeat : (q.queue.step (.heartbeat w now)).row h.job.id = some (j.beaten now) := by
    simp only [QueueState.step, hheld, row, Queue.find?_heartbeat, if_true]
    rw [show q.queue.store.jobs.find? h.job.id = some j from hrow, Option.map_some,
      if_pos (CollectionJob.running_iff.mpr hrunning)]
  rw [hrow'] at hbeat
  exact Option.some.inj hbeat

theorem step_beats (hq : q.Guarded) {l : QueueStep} (hl : q.Refreshing l) {w : Nat} {h : Holding}
    {j' : CollectionJob} (hafter : (q.step l).queue.held w = some h)
    (hrow' : (q.step l).queue.row h.job.id = some j') :
    j'.heartbeatAt = some ((q.step l).refreshed w) := by
  rcases held_step hafter with ⟨name, now, locked, rfl, hidle, hc, -⟩ | ⟨h₀, hbefore, hjob, -⟩
  · obtain ⟨j, -, -, hrows⟩ := Queue.claim_eq_some hc
    simp only [step, QueueState.step, hidle, row] at hrow' ⊢
    rw [hrows, if_pos rfl] at hrow'
    cases hrow'
    rw [Function.update_self]
    rfl
  · rw [hjob] at hrow'
    obtain ⟨j, hrow, hrunning⟩ := hq.assigned.runs w h₀ hbefore (hq.kept w h₀ hbefore)
    by_cases hown : ∃ now, l = .heartbeat w now
    · obtain ⟨now, rfl⟩ := hown
      rw [row_heartbeat hbefore hrow hrunning hrow']
      simp [step, CollectionJob.beaten]
    · have hnot : ∀ now, l ≠ .heartbeat w now := fun now heq => hown ⟨now, heq⟩
      rw [refreshed_step hbefore hnot, hq.row_beats hl hafter hbefore hnot hrow hrow']
      exact hq.beats w h₀ j hbefore hrow

theorem step (hq : q.Guarded) {l : QueueStep} (hl : q.Refreshing l) : (q.step l).Guarded where
  assigned := hq.assigned.step (hq.punctual l)
  kept _ _ hafter := hq.step_kept hl hafter
  beats _ _ _ hafter hrow' := hq.step_beats hl hafter hrow'

end Guarded

end WatchedQueue

open WatchedQueue

theorem no_job_in_two_hands (sources : Table Source) (labels : List QueueStep)
    (h : Always WatchedQueue.step Refreshing (.opening sources) labels) :
    ∀ pre post, labels = pre ++ post →
      (execute WatchedQueue.step (.opening sources) pre).Exclusive := by
  intro pre post hsplit
  rw [hsplit] at h
  have hguarded : (execute WatchedQueue.step (.opening sources) pre).Guarded :=
    (always_append.mp h).1.invariant (guarded_opening sources) fun q l hq hl => hq.step hl
  exact hguarded.exclusive

/-- The first worker dies with its job and the second one takes it over after the sweep; the third
one keeps its own job through two sweeps. -/
def takenOver : List QueueStep :=
  [.enqueue 1 3 0, .enqueue 2 3 0, .claim 1 "one".toList 0 [], .claim 3 "three".toList 0 [],
    .crash 1, .heartbeat 3 40000000, .recoverStale 60 70000000 70000000,
    .claim 2 "two".toList 71000000 [], .heartbeat 3 80000000,
    .recoverStale 60 100000000 100000000, .complete 3 0 110000000]

theorem no_job_in_two_hands_taken_over :
    (execute WatchedQueue.step (.opening .empty) (takenOver.take 9)).Exclusive := by
  have hlabels : ∀ l ∈ takenOver, ∀ w, l.worker = some w → w ∈ [1, 2, 3] := by
    simp [takenOver, QueueStep.worker]
  have hworkers (n w : Nat) (h : Holding)
      (hheld : (execute WatchedQueue.step (.opening .empty) (takenOver.take n)).queue.held w =
        some h) : w ∈ [1, 2, 3] := by
    by_contra hw
    rw [execute_queue, idle_of_absent rfl] at hheld
    · cases hheld
    · intro l hl heq
      exact hw (hlabels l (List.mem_of_mem_take hl) w heq)
  refine no_job_in_two_hands .empty takenOver ?_ (takenOver.take 9) (takenOver.drop 9) (by simp)
  refine ⟨trivial, trivial, trivial, trivial, trivial, trivial, ?_, trivial, trivial, ?_, trivial,
    trivial⟩
  · intro w h hheld
    have hw : w = 3 := by
      have hsome : ((execute WatchedQueue.step (.opening .empty) (takenOver.take 6)).queue.held
          w).isSome = true := Option.isSome_iff_exists.mpr ⟨h, hheld⟩
      revert hsome
      have hmem := hworkers 6 w h hheld
      simp only [List.mem_cons, List.not_mem_nil, or_false] at hmem
      rcases hmem with rfl | rfl | rfl <;> decide +kernel
    subst hw
    decide +kernel
  · intro w h hheld
    have hmem := hworkers 9 w h hheld
    simp only [List.mem_cons, List.not_mem_nil, or_false] at hmem
    rcases hmem with rfl | rfl | rfl
    · have hidle : (execute WatchedQueue.step (.opening .empty) (takenOver.take 9)).queue.held 1 =
          none := by decide +kernel
      cases hidle.symm.trans hheld
    · decide +kernel
    · decide +kernel

end LeadPipe
