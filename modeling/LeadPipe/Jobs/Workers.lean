import Mathlib.Logic.Function.Basic
import LeadPipe.Framework.Transition
import LeadPipe.Jobs.Queue

/-!
# Workers on one queue

Any number of workers take jobs from the same table, one job at a time each, as
`Worker.run_once` does. A worker acts with the `ClaimedJob` it was handed when it claimed,
however long ago that was: between any two of its steps every other worker may take any number
of steps, and a worker may stop for good. Next to the claim stands whether `recover_stale` has
since taken the job away from it; no code of the program reads that.
-/

namespace LeadPipe

open Framework

structure Holding where
  job : ClaimedJob
  takenAway : Bool
  deriving DecidableEq

structure QueueState where
  store : Store
  held : Nat → Option Holding

inductive QueueStep where
  | enqueue (sourceId maxAttempts : Nat) (now : Instant)
  | claim (worker : Nat) (name : Text) (now : Instant) (locked : List Nat)
  | heartbeat (worker : Nat) (now : Instant)
  | recoverStale (staleAfter : ℚ) (now failedAt : Instant)
  | fail (worker : Nat) (error : Text) (now : Instant) (jitter : ℚ)
  | complete (worker : Nat) (startedAt finishedAt : Instant)
  | crash (worker : Nat)

namespace QueueState

def opening (sources : Table Source) : QueueState :=
  ⟨{ Store.empty with sources }, fun _ => none⟩

def row (q : QueueState) (jobId : Nat) : Option CollectionJob := q.store.jobs.find? jobId

def sweeps (q : QueueState) (staleAfter : ℚ) (now : Instant) (jobId : Nat) : Bool :=
  (q.row jobId).any fun j => j.running && j.silent (now - timedelta staleAfter)

def drop (q : QueueState) (worker : Nat) : Nat → Option Holding :=
  Function.update q.held worker none

def step (q : QueueState) : QueueStep → QueueState
  | .enqueue sourceId maxAttempts now =>
      { q with store := Queue.enqueue q.store sourceId maxAttempts now }
  | .claim worker name now locked =>
      match q.held worker with
      | some _ => q
      | none =>
          let r := Queue.claim q.store name now locked
          { store := r.2
            held := Function.update q.held worker (r.1.map fun c => ⟨c, false⟩) }
  | .heartbeat worker now =>
      match q.held worker with
      | none => q
      | some h => { q with store := Queue.heartbeat q.store h.job.id now }
  | .recoverStale staleAfter now failedAt =>
      { store := (Queue.recoverStale q.store staleAfter now failedAt).2
        held := fun w => (q.held w).map fun h =>
          { h with takenAway := h.takenAway || q.sweeps staleAfter now h.job.id } }
  | .fail worker error now jitter =>
      match q.held worker with
      | none => q
      | some h =>
          { store := (Queue.fail q.store h.job error now jitter).2, held := q.drop worker }
  | .complete worker startedAt finishedAt =>
      match q.held worker with
      | none => q
      | some h =>
          { store := Queue.complete q.store h.job.id startedAt finishedAt
            held := q.drop worker }
  | .crash worker => { q with held := q.drop worker }

end QueueState

/-- The worker whose code takes the step; the sweep is nobody's in particular. -/
def QueueStep.worker : QueueStep → Option Nat
  | .claim worker .. | .heartbeat worker .. | .fail worker .. => some worker
  | .complete worker .. | .crash worker => some worker
  | .enqueue .. | .recoverStale .. => none

namespace QueueState

variable (q : QueueState)

def handed : QueueStep → Option Nat
  | .claim worker name now locked =>
      match q.held worker with
      | some _ => none
      | none => (Queue.claim q.store name now locked).1.map ClaimedJob.id
  | _ => none

theorem handed_claim {worker : Nat} (hidle : q.held worker = none) (name : Text) (now : Instant)
    (locked : List Nat) :
    q.handed (.claim worker name now locked) =
      (Queue.claim q.store name now locked).1.map ClaimedJob.id := by
  simp [handed, hidle]

/-- Every way a step can change the row of a job. -/
inductive RowStep (q : QueueState) (l : QueueStep) (j : CollectionJob) :
    CollectionJob → Prop
  | same (passed : q.handed l ≠ some j.id) : RowStep q l j j
  | claimed {worker : Nat} {name : Text} {now : Instant} {locked : List Nat} {c : ClaimedJob}
      (label : l = .claim worker name now locked) (idle : q.held worker = none)
      (handed : (Queue.claim q.store name now locked).1 = some c) (own : c.id = j.id)
      (runnable : j.runnable now locked = true) : RowStep q l j (j.claimed name now)
  | beaten {worker : Nat} {now : Instant} {h : Holding} (label : l = .heartbeat worker now)
      (holds : q.held worker = some h) (own : h.job.id = j.id) (running : j.running = true) :
      RowStep q l j (j.beaten now)
  | swept {staleAfter : ℚ} {now failedAt : Instant}
      (label : l = .recoverStale staleAfter now failedAt)
      (stale : (j.running && j.silent (now - timedelta staleAfter)) = true) :
      RowStep q l j (if j.exhausted then j.failed stoppedResponding failedAt else j.released)
  | failed {worker : Nat} {error : Text} {now : Instant} {jitter : ℚ} {h : Holding}
      (label : l = .fail worker error now jitter) (holds : q.held worker = some h)
      (own : h.job.id = j.id) :
      RowStep q l j (Queue.failedRow h.job error now jitter j)
  | completed {worker : Nat} {startedAt finishedAt : Instant} {h : Holding}
      (label : l = .complete worker startedAt finishedAt) (holds : q.held worker = some h)
      (own : h.job.id = j.id) : RowStep q l j (j.completed startedAt finishedAt)

variable {q}

theorem row_opening (sources : Table Source) (k : Nat) : (opening sources).row k = none :=
  Table.find?_eq_none.mpr (by simp [opening, Store.empty])

theorem row_id {k : Nat} {j : CollectionJob} (h : q.row k = some j) : j.id = k :=
  Queue.id_of_find? h

theorem row_lt_next {k : Nat} {j : CollectionJob} (h : q.row k = some j) :
    k < q.store.jobs.next := by
  have hmem := (Table.find?_eq_some.mp h).1
  have hlt : j.id < q.store.jobs.next := Table.key_lt_next hmem
  rwa [row_id h] at hlt

/-- A stored job stays, and its row changes in one of the ways listed. -/
theorem row_step {k : Nat} {j : CollectionJob} (h : q.row k = some j) (l : QueueStep) :
    ∃ j', (q.step l).row k = some j' ∧ RowStep q l j j' := by
  have hid := row_id h
  have hlt := row_lt_next h
  unfold row at h
  cases l with
  | enqueue sourceId maxAttempts now =>
      refine ⟨j, ?_, .same (by simp [handed])⟩
      exact (Queue.find?_enqueue q.store k sourceId maxAttempts now).trans (by
        rw [if_neg hlt.ne, h])
  | claim worker name now locked =>
      cases hheld : q.held worker with
      | some held => exact ⟨j, by simpa [step, hheld, row] using h, .same (by simp [handed, hheld])⟩
      | none =>
          have hhanded := q.handed_claim hheld name now locked
          simp only [step, hheld, row]
          cases hclaim : (Queue.claim q.store name now locked).1 with
          | none =>
              rw [Queue.claim_eq_none hclaim]
              exact ⟨j, h, .same (by simp [hhanded, hclaim])⟩
          | some c =>
              obtain ⟨found, hfound, hrun, hrows⟩ := Queue.claim_eq_some hclaim
              rw [hrows k]
              by_cases hk : k = c.id
              · rw [if_pos hk]
                rw [← hk, h] at hfound
                cases hfound
                exact ⟨_, rfl, .claimed rfl hheld hclaim (by rw [hid, hk]) hrun⟩
              · rw [if_neg hk]
                refine ⟨j, h, .same ?_⟩
                rw [hhanded, hclaim, Option.map_some, hid]
                exact fun heq => hk (Option.some.inj heq).symm
  | heartbeat worker now =>
      cases hheld : q.held worker with
      | none => exact ⟨j, by simpa [step, hheld, row] using h, .same (by simp [handed])⟩
      | some held =>
          simp only [step, hheld, row, Queue.find?_heartbeat, h, Option.map_some]
          by_cases hk : k = held.job.id
          · rw [if_pos hk]
            by_cases hrun : j.running = true
            · exact ⟨_, by rw [if_pos hrun], .beaten rfl hheld (by rw [hid, hk]) hrun⟩
            · exact ⟨j, by rw [if_neg hrun], .same (by simp [handed])⟩
          · exact ⟨j, by rw [if_neg hk], .same (by simp [handed])⟩
  | recoverStale staleAfter now failedAt =>
      simp only [step, row, Queue.find?_recoverStale, h, Option.map_some]
      unfold Queue.sweptRow
      by_cases hs : (j.running && j.silent (now - timedelta staleAfter)) = true
      · rw [if_pos hs]
        exact ⟨_, rfl, .swept rfl hs⟩
      · rw [if_neg hs]
        exact ⟨j, rfl, .same (by simp [handed])⟩
  | fail worker error now jitter =>
      cases hheld : q.held worker with
      | none => exact ⟨j, by simpa [step, hheld, row] using h, .same (by simp [handed])⟩
      | some held =>
          simp only [step, hheld, row, Queue.find?_fail, h, Option.map_some]
          by_cases hk : k = held.job.id
          · rw [if_pos hk]
            exact ⟨_, rfl, .failed rfl hheld (by rw [hid, hk])⟩
          · exact ⟨j, by rw [if_neg hk], .same (by simp [handed])⟩
  | complete worker startedAt finishedAt =>
      cases hheld : q.held worker with
      | none => exact ⟨j, by simpa [step, hheld, row] using h, .same (by simp [handed])⟩
      | some held =>
          simp only [step, hheld, row, Queue.find?_complete, h, Option.map_some]
          by_cases hk : k = held.job.id
          · rw [if_pos hk]
            exact ⟨_, rfl, .completed rfl hheld (by rw [hid, hk])⟩
          · exact ⟨j, by rw [if_neg hk], .same (by simp [handed])⟩
  | crash worker => exact ⟨j, h, .same (by simp [handed])⟩

theorem row_new {k : Nat} {j : CollectionJob} {l : QueueStep} (hnone : q.row k = none)
    (h : (q.step l).row k = some j) :
    ∃ sourceId maxAttempts now, l = .enqueue sourceId maxAttempts now ∧
      j = JobRepository.blank k sourceId maxAttempts now := by
  unfold row at hnone h
  cases l with
  | enqueue sourceId maxAttempts now =>
      have hput := Queue.find?_enqueue q.store k sourceId maxAttempts now
      have hrow := hput.symm.trans h
      by_cases hk : k = q.store.jobs.next
      · rw [if_pos hk] at hrow
        exact ⟨sourceId, maxAttempts, now, rfl, (Option.some.inj hrow).symm⟩
      · rw [if_neg hk, hnone] at hrow
        cases hrow
  | claim worker name now locked =>
      cases hheld : q.held worker with
      | some held => simp [step, hheld, hnone] at h
      | none =>
          simp only [step, hheld] at h
          cases hclaim : (Queue.claim q.store name now locked).1 with
          | none =>
              rw [Queue.claim_eq_none hclaim, hnone] at h
              cases h
          | some c =>
              obtain ⟨found, hfound, -, hrows⟩ := Queue.claim_eq_some hclaim
              rw [hrows k] at h
              by_cases hk : k = c.id
              · rw [← hk, hnone] at hfound
                cases hfound
              · rw [if_neg hk, hnone] at h
                cases h
  | heartbeat worker now =>
      cases hheld : q.held worker <;>
        simp [step, hheld, Queue.find?_heartbeat, hnone] at h
  | recoverStale staleAfter now failedAt =>
      simp [step, Queue.find?_recoverStale, hnone] at h
  | fail worker error now jitter =>
      cases hheld : q.held worker <;> simp [step, hheld, Queue.find?_fail, hnone] at h
  | complete worker startedAt finishedAt =>
      cases hheld : q.held worker <;> simp [step, hheld, Queue.find?_complete, hnone] at h
  | crash worker =>
      rw [show (q.step (.crash worker)).store = q.store from rfl, hnone] at h
      cases h

def takes (q : QueueState) : QueueStep → Nat → Bool
  | .recoverStale staleAfter now _, jobId => q.sweeps staleAfter now jobId
  | _, _ => false

theorem held_step {w : Nat} {h : Holding} {l : QueueStep} (hheld : (q.step l).held w = some h) :
    (∃ name now locked, l = .claim w name now locked ∧ q.held w = none ∧
      (Queue.claim q.store name now locked).1 = some h.job ∧ h.takenAway = false) ∨
    (∃ h₀, q.held w = some h₀ ∧ h.job = h₀.job ∧
      h.takenAway = (h₀.takenAway || q.takes l h₀.job.id)) := by
  have hkept (l : QueueStep) (hl : ∀ k, q.takes l k = false) (h₀ : q.held w = some h) :
      ∃ h₀, q.held w = some h₀ ∧ h.job = h₀.job ∧
        h.takenAway = (h₀.takenAway || q.takes l h₀.job.id) :=
    ⟨h, h₀, rfl, by rw [hl, Bool.or_false]⟩
  have hdropped (worker : Nat) (hd : q.drop worker w = some h) : q.held w = some h := by
    unfold drop at hd
    by_cases hw : w = worker
    · rw [hw, Function.update_self] at hd
      cases hd
    · rwa [Function.update_of_ne hw] at hd
  cases l with
  | enqueue => exact .inr (hkept _ (fun _ => rfl) hheld)
  | claim worker name now locked =>
      cases hw : q.held worker with
      | some held =>
          simp only [step, hw] at hheld
          exact .inr (hkept _ (fun _ => rfl) hheld)
      | none =>
          simp only [step, hw] at hheld
          by_cases heq : w = worker
          · subst heq
            rw [Function.update_self] at hheld
            obtain ⟨c, hc, rfl⟩ := Option.map_eq_some_iff.mp hheld
            exact .inl ⟨name, now, locked, rfl, hw, hc, rfl⟩
          · rw [Function.update_of_ne heq] at hheld
            exact .inr (hkept _ (fun _ => rfl) hheld)
  | heartbeat worker now =>
      cases hw : q.held worker <;> simp only [step, hw] at hheld <;>
        exact .inr (hkept _ (fun _ => rfl) hheld)
  | recoverStale staleAfter now failedAt =>
      obtain ⟨h₀, hh₀, rfl⟩ := Option.map_eq_some_iff.mp hheld
      exact .inr ⟨h₀, hh₀, rfl, rfl⟩
  | fail worker error now jitter =>
      cases hw : q.held worker <;> simp only [step, hw] at hheld
      · exact .inr (hkept _ (fun _ => rfl) hheld)
      · exact .inr (hkept _ (fun _ => rfl) (hdropped worker hheld))
  | complete worker startedAt finishedAt =>
      cases hw : q.held worker <;> simp only [step, hw] at hheld
      · exact .inr (hkept _ (fun _ => rfl) hheld)
      · exact .inr (hkept _ (fun _ => rfl) (hdropped worker hheld))
  | crash worker => exact .inr (hkept _ (fun _ => rfl) (hdropped worker hheld))

theorem idle_step {w : Nat} (hidle : q.held w = none) {l : QueueStep} (hl : l.worker ≠ some w) :
    (q.step l).held w = none := by
  cases hafter : (q.step l).held w with
  | none => rfl
  | some h =>
      rcases held_step hafter with ⟨name, now, locked, rfl, -⟩ | ⟨h₀, hbefore, -⟩
      · exact absurd rfl hl
      · rw [hidle] at hbefore
        cases hbefore

theorem idle_of_absent {w : Nat} (hidle : q.held w = none) {labels : List QueueStep}
    (h : ∀ l ∈ labels, l.worker ≠ some w) : (execute step q labels).held w = none := by
  induction labels generalizing q with
  | nil => exact hidle
  | cons l labels ih =>
      exact ih (idle_step hidle (h l List.mem_cons_self))
        fun l' hl' => h l' (List.mem_cons_of_mem _ hl')

/-- A worker that has its claim after the step was handed it by the step, or had it before and
the step did not sweep its job. -/
theorem kept_step {w : Nat} {h : Holding} {l : QueueStep} (hheld : (q.step l).held w = some h)
    (hkept : h.takenAway = false) :
    (∃ name now locked, l = .claim w name now locked ∧ q.held w = none ∧
      (Queue.claim q.store name now locked).1 = some h.job) ∨
    (∃ h₀, q.held w = some h₀ ∧ h.job = h₀.job ∧ h₀.takenAway = false ∧
      ∀ staleAfter now failedAt, l = .recoverStale staleAfter now failedAt →
        q.sweeps staleAfter now h₀.job.id = false) := by
  rcases held_step hheld with
    ⟨name, now, locked, hclaim, hidle, hc, -⟩ | ⟨h₀, hbefore, hjob, htaken⟩
  · exact .inl ⟨name, now, locked, hclaim, hidle, hc⟩
  · rw [hkept] at htaken
    obtain ⟨hkept₀, hnot⟩ := Bool.or_eq_false_iff.mp htaken.symm
    refine .inr ⟨h₀, hbefore, hjob, hkept₀, fun staleAfter now failedAt hl => ?_⟩
    subst hl
    exact hnot

end QueueState

end LeadPipe
