import LeadPipe.Framework.Transition
import LeadPipe.Jobs.Budget

/-!
# How long a job waits

`claim` takes the oldest job that is due. A job that stays due is passed over only in favour of
older ones, and each of these comes before it at most as often as it has attempts left.
-/

namespace LeadPipe

open Framework

/-- The order in which `claim` takes jobs. -/
def CollectionJob.seniority (job : CollectionJob) : Lex (Instant × Nat) :=
  toLex (job.createdAt, job.id)

def CollectionJob.attemptsLeft (job : CollectionJob) : Nat := job.maxAttempts - job.attempts

namespace Queue

theorem nextJob_oldest {st : Store} {now : Instant} {locked : List Nat} {job j : CollectionJob}
    (hnext : nextJob st now locked = some job) (hj : j ∈ st.jobs)
    (hrun : j.runnable now locked = true) : job.seniority ≤ j.seniority := by
  have hmem : j ∈ ranked CollectionJob.seniority
      (st.jobs.select (CollectionJob.runnable now locked)) :=
    mem_ranked.mpr (Table.mem_select.mpr ⟨hj, hrun⟩)
  have hsorted := ranked_sorted CollectionJob.seniority
    (st.jobs.select (CollectionJob.runnable now locked))
  have hhead : (ranked CollectionJob.seniority
      (st.jobs.select (CollectionJob.runnable now locked))).head? = some job := hnext
  cases hlist : ranked CollectionJob.seniority
      (st.jobs.select (CollectionJob.runnable now locked)) with
  | nil => rw [hlist] at hmem; cases hmem
  | cons first rest =>
      rw [hlist] at hmem hsorted hhead
      cases hhead
      rcases List.mem_cons.mp hmem with rfl | hrest
      · exact le_refl _
      · exact (List.pairwise_cons.mp hsorted).1 j hrest

end Queue

namespace QueueState

variable {q : QueueState}

theorem RowStep.createdAt {l : QueueStep} {j j' : CollectionJob} (h : RowStep q l j j') :
    j'.createdAt = j.createdAt := by
  cases h with
  | same | claimed | beaten | completed => rfl
  | swept => split <;> rfl
  | failed =>
      unfold Queue.failedRow
      split <;> rfl

theorem RowStep.seniority {l : QueueStep} {j j' : CollectionJob} (h : RowStep q l j j')
    (hid : j'.id = j.id) : j'.seniority = j.seniority := by
  rw [CollectionJob.seniority, CollectionJob.seniority, h.createdAt, hid]

/-- A job that is handed out was the oldest one that could be. -/
theorem handed_oldest {l : QueueStep} {i : Nat} (h : q.handed l = some i) :
    ∃ worker name now locked j, l = .claim worker name now locked ∧ q.row i = some j ∧
      j.status = .pending ∧
      ∀ j' ∈ q.store.jobs, j'.runnable now locked = true → j.seniority ≤ j'.seniority := by
  cases l with
  | claim worker name now locked =>
      cases hheld : q.held worker with
      | some held => simp [handed, hheld] at h
      | none =>
          rw [q.handed_claim hheld] at h
          obtain ⟨c, hc, hid⟩ := Option.map_eq_some_iff.mp h
          unfold Queue.claim at hc
          cases hnext : Queue.nextJob q.store now locked with
          | none => simp [hnext] at hc
          | some j =>
              simp only [hnext, Option.some.injEq] at hc
              obtain ⟨hmem, hrun⟩ := Table.mem_select.mp (mem_ranked.mp (List.mem_of_head? hnext))
              have hji : j.id = i := by rw [← hid, ← hc]; rfl
              refine ⟨worker, name, now, locked, j, rfl, Table.find?_eq_some.mpr ⟨hmem, hji⟩,
                CollectionJob.pending_of_runnable hrun, fun j' hj' hrun' => ?_⟩
              exact Queue.nextJob_oldest hnext hj' hrun'
  | _ => simp [handed] at h

/-- The step leaves the job where it is: it is due whenever somebody claims, and no job that is
created meanwhile is dated back. -/
def Waits (job : CollectionJob) (q : QueueState) (l : QueueStep) : Prop :=
  q.handed l ≠ some job.id ∧
    match l with
    | .enqueue _ _ now => job.createdAt ≤ now
    | .claim _ _ now locked => ∀ j, q.row job.id = some j → j.runnable now locked = true
    | _ => True

def older (q : QueueState) (job : CollectionJob) : List CollectionJob :=
  q.store.jobs.select fun j => j.seniority < job.seniority

theorem mem_older {job j : CollectionJob} :
    j ∈ q.older job ↔ q.row j.id = some j ∧ j.seniority < job.seniority := by
  rw [older, Table.mem_select, row, Table.find?_eq_some]
  simp

/-- What a run that the job waits through makes of the queue. -/
structure WaitedIn (q₀ : QueueState) (job : CollectionJob) (q : QueueState) : Prop where
  kept : ∀ i j₀, q₀.row i = some j₀ →
    ∃ j, q.row i = some j ∧ j.seniority = j₀.seniority ∧ j.maxAttempts = j₀.maxAttempts
  younger : ∀ i j, q₀.row i = none → q.row i = some j → job.seniority < j.seniority
  solvent : q.Solvent

section Waiting

variable {q₀ : QueueState} {job : CollectionJob} {l : QueueStep}

theorem WaitedIn.step (hjob : q₀.row job.id = some job) (h : WaitedIn q₀ job q)
    (hwaits : Waits job q l) (hspares : q.Spares l) : WaitedIn q₀ job (q.step l) where
  kept i j₀ hj₀ := by
    obtain ⟨j, hj, hsenior, hmax⟩ := h.kept i j₀ hj₀
    obtain ⟨j', hj', hrow⟩ := row_step hj l
    have hid : j'.id = j.id := by rw [row_id hj', row_id hj]
    exact ⟨j', hj', by rw [hrow.seniority hid, hsenior], by rw [hrow.maxAttempts, hmax]⟩
  younger i j' hnone hj' := by
    cases hj : q.row i with
    | some j =>
        obtain ⟨found, hfound, hrow⟩ := row_step hj l
        rw [hj'] at hfound
        cases hfound
        have hid : j'.id = j.id := by rw [row_id hj', row_id hj]
        rw [hrow.seniority hid]
        exact h.younger i j hnone hj
    | none =>
        obtain ⟨sourceId, maxAttempts, now, rfl, rfl⟩ := row_new hj hj'
        obtain ⟨j, hstored, -, -⟩ := h.kept job.id job hjob
        have hlt := row_lt_next hstored
        have hdate : job.createdAt ≤ now := hwaits.2
        have hi : i = q.store.jobs.next := by
          by_contra hne
          have hput := Queue.find?_enqueue q.store i sourceId maxAttempts now
          rw [if_neg hne] at hput
          exact absurd (hput.symm.trans hj') (by rw [show q.store.jobs.find? i = none from hj]; simp)
        rw [hi]
        refine Prod.Lex.toLex_lt_toLex.mpr ?_
        rcases lt_or_eq_of_le hdate with hearlier | hsame
        · exact .inl hearlier
        · exact .inr ⟨hsame, hlt⟩
  solvent := h.solvent.step hspares

theorem WaitedIn.handed_older (hjob : q₀.row job.id = some job) (h : WaitedIn q₀ job q)
    (hwaits : Waits job q l) {i : Nat} (hhanded : q.handed l = some i) :
    ∃ j₀ ∈ q₀.older job, j₀.id = i := by
  obtain ⟨worker, name, now, locked, j, rfl, hj, -, holdest⟩ := handed_oldest hhanded
  obtain ⟨stored, hstored, hsenior, -⟩ := h.kept job.id job hjob
  have hdue : stored.runnable now locked = true := hwaits.2 stored hstored
  have hle := holdest stored (Table.find?_eq_some.mp hstored).1 hdue
  rw [hsenior] at hle
  have hne : j.seniority ≠ job.seniority := by
    intro heq
    have hid : j.id = job.id := congrArg (fun p => (ofLex p).2) heq
    rw [row_id hj] at hid
    exact hwaits.1 (by rw [hhanded, hid])
  have hlt : j.seniority < job.seniority := lt_of_le_of_ne hle hne
  cases hj₀ : q₀.row i with
  | none => exact absurd hlt (not_lt_of_gt (h.younger i j hj₀ hj))
  | some j₀ =>
      obtain ⟨found, hfound, hsame, -⟩ := h.kept i j₀ hj₀
      rw [hj] at hfound
      cases hfound
      have hid := row_id hj₀
      refine ⟨j₀, mem_older.mpr ⟨?_, ?_⟩, hid⟩
      · rw [hid, hj₀]
      · rwa [← hsame]

def attemptsAhead (q₀ : QueueState) (job : CollectionJob) (q : QueueState) : Nat :=
  ((q₀.older job).map fun j₀ => ((q.row j₀.id).map CollectionJob.attemptsLeft).getD 0).sum

theorem attemptsAhead_start : attemptsAhead q₀ job q₀ =
    ((q₀.older job).map CollectionJob.attemptsLeft).sum := by
  unfold attemptsAhead
  congr 1
  refine List.map_congr_left fun j₀ hj₀ => ?_
  rw [(mem_older.mp hj₀).1]
  rfl

theorem WaitedIn.spent (hjob : q₀.row job.id = some job)
    (hpositive : ∀ j₀ ∈ q₀.older job, 1 ≤ j₀.maxAttempts) (h : WaitedIn q₀ job q)
    (hwaits : Waits job q l) :
    (q.handed l).isSome.toNat + attemptsAhead q₀ job (q.step l) ≤ attemptsAhead q₀ job q := by
  have hone : ∀ j₀ ∈ q₀.older job,
      (decide (q.handed l = some j₀.id)).toNat +
        (((q.step l).row j₀.id).map CollectionJob.attemptsLeft).getD 0 ≤
          ((q.row j₀.id).map CollectionJob.attemptsLeft).getD 0 := by
    intro j₀ hj₀
    obtain ⟨j, hj, -, hmax⟩ := h.kept j₀.id j₀ (mem_older.mp hj₀).1
    obtain ⟨j', hj', hrow⟩ := row_step hj l
    have hattempts := attempts_step hj hj'
    have hsame := hrow.maxAttempts
    have hleast := hpositive j₀ hj₀
    rw [hj, hj', Option.map_some, Option.map_some, Option.getD_some, Option.getD_some,
      CollectionJob.attemptsLeft, CollectionJob.attemptsLeft]
    by_cases hhanded : q.handed l = some j₀.id
    · obtain ⟨-, -, -, -, found, -, hfound, hpending, -⟩ := handed_oldest hhanded
      rw [hj] at hfound
      cases hfound
      have hleft := (h.solvent j₀.id j hj (by omega)).waiting hpending
      rw [if_pos hhanded] at hattempts
      simp only [hhanded, decide_true, Bool.toNat_true]
      omega
    · rw [if_neg hhanded] at hattempts
      simp only [hhanded, decide_false, Bool.toNat_false]
      omega
  have hall : ((q₀.older job).any fun j₀ => decide (q.handed l = some j₀.id)) =
      (q.handed l).isSome := by
    cases hhanded : q.handed l with
    | none => simp
    | some i =>
        obtain ⟨j₀, hj₀, hid⟩ := h.handed_older hjob hwaits hhanded
        rw [Option.isSome_some, List.any_eq_true]
        exact ⟨j₀, hj₀, by rw [hid]; exact decide_eq_true rfl⟩
  have hsum := sum_spent hone
  rw [hall] at hsum
  exact hsum

end Waiting

def handouts (q : QueueState) (labels : List QueueStep) : Nat :=
  tally step (fun q l => (q.handed l).isSome) q labels

end QueueState

open QueueState

/-- While a job waits, only older ones are handed out, and no more often than they have attempts
left together. -/
theorem overtaking_is_bounded (sources : Table Source) (before labels : List QueueStep)
    {q : QueueState} (hbefore : execute step (opening sources) before = q) {job : CollectionJob}
    (hjob : q.row job.id = some job) (hpositive : ∀ j ∈ q.older job, 1 ≤ j.maxAttempts)
    (hspares : Always step Spares (opening sources) (before ++ labels))
    (hwaits : Always step (Waits job) q labels) :
    Always step (fun q' l => ∀ i, q'.handed l = some i → ∃ j ∈ q.older job, j.id = i) q labels ∧
      handouts q labels ≤ ((q.older job).map CollectionJob.attemptsLeft).sum := by
  subst hbefore
  set q := execute step (opening sources) before
  obtain ⟨hspares₀, hspares₁⟩ := always_append.mp hspares
  have hsolvent : q.Solvent := hspares₀.invariant (solvent_opening sources)
    fun q l hq hl => hq.step hl
  have hstart : WaitedIn q job q :=
    ⟨fun i j hj => ⟨j, hj, rfl, rfl⟩, fun i j hnone hj => absurd (hnone.symm.trans hj) (by simp),
      hsolvent⟩
  have hboth : Always step (fun q l => Waits job q l ∧ q.Spares l) q labels :=
    hwaits.and hspares₁
  have hstep : ∀ q' l, WaitedIn q job q' → Waits job q' l ∧ q'.Spares l →
      WaitedIn q job (q'.step l) := fun q' l h hl => h.step hjob hl.1 hl.2
  refine ⟨hboth.imp hstart hstep fun q' l h hl i => h.handed_older hjob hl.1, ?_⟩
  have hspent := hboth.tally_le (attemptsAhead q job) hstart hstep
    fun q' l h hl => h.spent hjob hpositive hl.1
  rw [attemptsAhead_start] at hspent
  exact Nat.le_of_add_right_le hspent

/-- Two jobs: the second one waits while a worker takes the first one. -/
theorem overtaking_is_bounded_two :
    Always step (fun q' l => ∀ i, q'.handed l = some i →
        ∃ j ∈ (execute step (opening .empty) [.enqueue 1 3 0, .enqueue 2 3 0]).older
          (JobRepository.blank 2 2 3 0), j.id = i)
        (execute step (opening .empty) [.enqueue 1 3 0, .enqueue 2 3 0])
        [.claim 1 "one".toList 5 []] ∧
      handouts (execute step (opening .empty) [.enqueue 1 3 0, .enqueue 2 3 0])
        [.claim 1 "one".toList 5 []] ≤
        (((execute step (opening .empty) [.enqueue 1 3 0, .enqueue 2 3 0]).older
          (JobRepository.blank 2 2 3 0)).map CollectionJob.attemptsLeft).sum := by
  have hrow : (execute step (opening .empty) [.enqueue 1 3 0, .enqueue 2 3 0]).row 2 =
      some (JobRepository.blank 2 2 3 0) := by decide +kernel
  refine overtaking_is_bounded .empty [.enqueue 1 3 0, .enqueue 2 3 0]
    [.claim 1 "one".toList 5 []] rfl hrow (by decide +kernel) ⟨trivial, trivial, trivial, trivial⟩
    ⟨⟨by decide +kernel, fun j hj => ?_⟩, trivial⟩
  cases hrow.symm.trans hj
  rfl

end LeadPipe
