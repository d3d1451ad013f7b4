import Mathlib.Algebra.Order.BigOperators.Group.List
import Mathlib.Tactic.Linarith
import Mathlib.Tactic.NormNum
import Mathlib.Tactic.Positivity
import LeadPipe.Jobs.FailedRuns
import LeadPipe.Jobs.Fairness

/-!
# A worker alone

The loop of `Worker.run_forever` while nobody else takes or queues jobs: stale jobs are recovered
when that is due, and then `run_once` takes one job, whatever its source does. Every job that is
taken costs an attempt or is over, so that the worker runs out of jobs; and a turn that finds none
although nothing has to wait any longer finds the queue empty.
-/

namespace LeadPipe

open Framework

theorem Queue.claim_counts {st : Store} {worker : Text} {now : Instant} {locked : List Nat}
    {c : ClaimedJob} {j : CollectionJob} (h : (claim st worker now locked).1 = some c)
    (hj : st.jobs.find? c.id = some j) :
    c.attempts = j.attempts + 1 ∧ c.maxAttempts = j.maxAttempts := by
  unfold claim at h
  cases hnext : nextJob st now locked with
  | none => simp [hnext] at h
  | some job =>
      simp only [hnext, Option.some.injEq] at h
      subst h
      obtain ⟨hmem, -⟩ := Table.mem_select.mp (mem_ranked.mp (List.mem_of_head? hnext))
      have hsame : st.jobs.find? job.id = some job := Table.find?_eq_some.mpr ⟨hmem, rfl⟩
      cases hsame.symm.trans hj
      exact ⟨rfl, rfl⟩

namespace Worker

/-- The settings of the loop, in microseconds and in seconds. -/
structure Settings where
  name : Text
  recoverEvery : Int
  staleAfter : ℚ

/-- What a turn of the loop finds: the clocks, the configuration, and what the adapter of its job
yields. `unknownSource` is the text of the `KeyError` for a source that is not configured. -/
structure Turn where
  loopTime : Int
  sweptAt : Instant
  sweptFailedAt : Instant
  claimedAt : Instant
  startedAt : Instant
  finishedAt : Instant
  failedAt : Instant
  jitter : ℚ
  source : Text → Option SourceConfig
  collection : Collection
  describe : Exn PyError → Text
  unknownSource : Text → Text

structure LoopState where
  store : Store
  lastRecovery : Int

variable (env : Platform) (settings : Settings)

/-- `_maybe_recover` -/
def maybeRecover (s : LoopState) (turn : Turn) : LoopState :=
  if turn.loopTime - s.lastRecovery < settings.recoverEvery then s
  else
    { store := (Queue.recoverStale s.store settings.staleAfter turn.sweptAt turn.sweptFailedAt).2
      lastRecovery := turn.loopTime }

def task (turn : Turn) (job : ClaimedJob) (config : SourceConfig) : Task where
  job := job
  config := config
  startedAt := turn.startedAt
  finishedAt := turn.finishedAt
  failedAt := turn.failedAt
  jitter := turn.jitter
  describe := turn.describe

/-- What `run_once` returns, and the store it leaves. -/
def runOnce (turn : Turn) (st : Store) : Bool × Store :=
  match Queue.claim st settings.name turn.claimedAt [] with
  | (none, st) => (false, st)
  | (some job, st) =>
      match turn.source job.sourceName with
      | some config => (true, work env (task turn job config) turn.collection st)
      | none =>
          (true, (Queue.fail st job (turn.unknownSource job.sourceName) turn.failedAt
            turn.jitter).2)

def loop (s : LoopState) (turn : Turn) : LoopState :=
  let s := maybeRecover settings s turn
  { s with store := (runOnce env settings turn s.store).2 }

def worked (s : LoopState) (turn : Turn) : Bool :=
  (runOnce env settings turn (maybeRecover settings s turn).store).1

section Work

variable {env} {st : Store}

theorem process_of_ending (task : Task) (items : List (CollectedItem × Option Nat)) (e : PyError)
    (st : Store) : ∃ e', process env task ⟨items, .error e⟩ st = .error e' := by
  have hfails (job : CollectionJob) (s : Session Store Write RunStats) :
      ∃ e' s', closeRun job (.error e) task.finishedAt s = (.error e', s') := by
    cases e with
    | valueError => exact ⟨_, _, rfl⟩
    | sourceError message => exact closeRun_fails job message task.finishedAt s
  obtain ⟨e', s', hrun⟩ := bind_fails (fun _ => bind_fails fun _ => hfails _)
    (m := openRun task.config (some task.job.id) task.startedAt) st.session
  refine ⟨e', ?_⟩
  unfold process Txn.commit runCollection
  rw [hrun]

theorem work_rows (env : Platform) (task : Task) (collection : Collection) {stored : CollectionJob}
    (hj : st.jobs.find? task.job.id = some stored) :
    ∃ j', (j' = stored.completed task.startedAt task.finishedAt ∨
        ∃ error, j' = Queue.failedRow task.job error task.failedAt task.jitter stored) ∧
      ∀ k, (work env task collection st).jobs.find? k =
        if k = task.job.id then some j' else st.jobs.find? k := by
  cases hprocess : process env task collection st with
  | error e =>
      refine ⟨_, .inr ⟨task.describe e, rfl⟩, fun k => ?_⟩
      rw [work_of_error hprocess, Queue.find?_fail]
      by_cases hk : k = task.job.id
      · rw [if_pos hk, if_pos hk, hk, hj, Option.map_some]
      · rw [if_neg hk, if_neg hk]
  | ok st' =>
      obtain ⟨items, ending⟩ := collection
      cases ending with
      | error e =>
          obtain ⟨e', hfailed⟩ := process_of_ending task items e st
          rw [hfailed] at hprocess
          cases hprocess
      | ok _ =>
          refine ⟨_, .inl rfl, fun k => ?_⟩
          have hwork : work env task ⟨items, .ok ()⟩ st = st' := by rw [work, hprocess]
          rw [hwork, process_completes hj hprocess, Queue.find?_complete]
          by_cases hk : k = task.job.id
          · rw [if_pos hk, if_pos hk, hk, hj, Option.map_some]
          · rw [if_neg hk, if_neg hk]

end Work

/-- What a turn makes of the job it takes. -/
structure Served (turn : Turn) (j j' : CollectionJob) : Prop where
  attempts : j'.attempts = j.attempts + 1
  maxAttempts : j'.maxAttempts = j.maxAttempts
  waits : j'.status = .pending → j'.attempts < j'.maxAttempts ∧
    j'.runAfter = some (turn.failedAt + timedelta (backoffSeconds j'.attempts turn.jitter))
  stopped : j'.status ≠ .running

section Turns

variable {settings : Settings} {turn : Turn} {st : Store}

theorem served_completed (name : Text) (j : CollectionJob) :
    Served turn j ((j.claimed name turn.claimedAt).completed turn.startedAt turn.finishedAt) where
  attempts := rfl
  maxAttempts := rfl
  waits h := by cases h
  stopped := by simp [CollectionJob.completed]

theorem served_failed (name error : Text) (j : CollectionJob) {job : ClaimedJob}
    (hattempts : job.attempts = j.attempts + 1) (hmax : job.maxAttempts = j.maxAttempts) :
    Served turn j (Queue.failedRow job error turn.failedAt turn.jitter
      (j.claimed name turn.claimedAt)) := by
  unfold Queue.failedRow
  by_cases hleft : job.attempts < job.maxAttempts
  · rw [if_pos hleft]
    refine ⟨rfl, rfl, fun _ => ⟨?_, ?_⟩, by simp [CollectionJob.requeued]⟩
    · change j.attempts + 1 < j.maxAttempts
      omega
    · change some (_ + timedelta (backoffSeconds job.attempts _)) = _
      rw [hattempts]
      rfl
  · rw [if_neg hleft]
    exact ⟨rfl, rfl, fun h => absurd h (by simp [CollectionJob.failed]),
      by simp [CollectionJob.failed]⟩

theorem runOnce_idle (h : (runOnce env settings turn st).1 = false) :
    (runOnce env settings turn st).2 = st ∧
      ∀ j ∈ st.jobs, j.runnable turn.claimedAt [] = false := by
  unfold runOnce Queue.claim at h ⊢
  cases hnext : Queue.nextJob st turn.claimedAt [] with
  | none =>
      refine ⟨rfl, fun j hj => ?_⟩
      have hempty : st.jobs.select (CollectionJob.runnable turn.claimedAt []) = [] :=
        ranked_eq_nil.mp (List.head?_eq_none_iff.mp hnext)
      cases hrun : j.runnable turn.claimedAt [] with
      | false => rfl
      | true =>
          have hmem := Table.mem_select.mpr ⟨hj, hrun⟩
          rw [hempty] at hmem
          cases hmem
  | some j =>
      simp only [hnext] at h
      split at h <;> cases h

theorem runOnce_serves (h : (runOnce env settings turn st).1 = true) :
    ∃ j j', st.jobs.find? j.id = some j ∧ j.status = .pending ∧ Served turn j j' ∧
      ∀ k, (runOnce env settings turn st).2.jobs.find? k =
        if k = j.id then some j' else st.jobs.find? k := by
  unfold runOnce at h ⊢
  rcases hclaim : Queue.claim st settings.name turn.claimedAt [] with ⟨_ | job, claimed⟩
  · rw [hclaim] at h
    cases h
  · have hjob : (Queue.claim st settings.name turn.claimedAt []).1 = some job := by rw [hclaim]
    obtain ⟨j, hj, hrun, hrows⟩ := Queue.claim_eq_some hjob
    obtain ⟨hattempts, hmax⟩ := Queue.claim_counts hjob hj
    have hid := Queue.id_of_find? hj
    have hstored : claimed.jobs.find? job.id = some (j.claimed settings.name turn.claimedAt) := by
      have hrow := hrows job.id
      rwa [hclaim, if_pos rfl] at hrow
    have hothers (k : Nat) (hk : k ≠ job.id) : claimed.jobs.find? k = st.jobs.find? k := by
      have hrow := hrows k
      rwa [hclaim, if_neg hk] at hrow
    dsimp only
    refine ⟨j, ?_⟩
    rw [hid]
    cases hsource : turn.source job.sourceName with
    | some config =>
        obtain ⟨j', hj', hwork⟩ :=
          work_rows env (task turn job config) turn.collection hstored
        refine ⟨j', hj, CollectionJob.pending_of_runnable hrun, ?_, fun k => ?_⟩
        · rcases hj' with rfl | ⟨error, rfl⟩
          · exact served_completed settings.name j
          · exact served_failed settings.name error j hattempts hmax
        · refine (hwork k).trans ?_
          by_cases hk : k = job.id
          · exact (if_pos hk).trans (if_pos hk).symm
          · exact (if_neg hk).trans ((hothers k hk).trans (if_neg hk).symm)
    | none =>
        refine ⟨_, hj, CollectionJob.pending_of_runnable hrun,
          served_failed settings.name (turn.unknownSource job.sourceName) j hattempts hmax,
          fun k => ?_⟩
        refine (Queue.find?_fail claimed k job _ _ _).trans ?_
        by_cases hk : k = job.id
        · rw [if_pos hk, if_pos hk, hk, hstored, Option.map_some]
        · rw [if_neg hk, if_neg hk, hothers k hk]

end Turns

def outstanding (j : CollectionJob) : Nat :=
  match j.status with
  | .pending => max 1 j.attemptsLeft
  | .running => j.attemptsLeft
  | _ => 0

def outstandingIn (jobs : List CollectionJob) (s : LoopState) : Nat :=
  (jobs.map fun j₀ => ((s.store.jobs.find? j₀.id).map outstanding).getD 0).sum

theorem Served.outstanding_lt {turn : Turn} {j j' : CollectionJob} (h : Served turn j j')
    (hpending : j.status = .pending) : outstanding j' + 1 ≤ outstanding j := by
  have hattempts := h.attempts
  have hmax := h.maxAttempts
  have hone : outstanding j = max 1 j.attemptsLeft := by rw [outstanding, hpending]
  unfold CollectionJob.attemptsLeft at hone
  cases hstatus : j'.status with
  | pending =>
      have hleft := (h.waits hstatus).1
      have hone' : outstanding j' = max 1 j'.attemptsLeft := by rw [outstanding, hstatus]
      unfold CollectionJob.attemptsLeft at hone'
      omega
  | running => exact absurd hstatus h.stopped
  | completed | failed | cancelled =>
      have hnone : outstanding j' = 0 := by rw [outstanding, hstatus]
      omega

theorem outstanding_swept (staleAfter : ℚ) (now failedAt : Instant) (j : CollectionJob) :
    outstanding (Queue.sweptRow staleAfter now failedAt j) ≤ outstanding j := by
  unfold Queue.sweptRow
  by_cases hstale : (j.running && j.silent (now - timedelta staleAfter)) = true
  · rw [if_pos hstale]
    rw [Bool.and_eq_true] at hstale
    have hrunning := CollectionJob.running_iff.mp hstale.1
    by_cases hexhausted : j.exhausted = true
    · rw [if_pos hexhausted]
      exact Nat.zero_le _
    · rw [if_neg hexhausted]
      have hleft : j.attempts < j.maxAttempts := by
        simpa [CollectionJob.exhausted] using hexhausted
      have hone : outstanding j.released = max 1 j.attemptsLeft := rfl
      have hsame : outstanding j = j.attemptsLeft := by rw [outstanding, hrunning]
      rw [hone, hsame, CollectionJob.attemptsLeft]
      omega
  · rw [if_neg hstale]

section Loop

variable {settings : Settings} {s : LoopState} {turn : Turn}

theorem maybeRecover_row (settings : Settings) (s : LoopState) (turn : Turn) (k : Nat) :
    (maybeRecover settings s turn).store.jobs.find? k = s.store.jobs.find? k ∨
      (maybeRecover settings s turn).store.jobs.find? k = (s.store.jobs.find? k).map
        (Queue.sweptRow settings.staleAfter turn.sweptAt turn.sweptFailedAt) := by
  unfold maybeRecover
  by_cases hearly : turn.loopTime - s.lastRecovery < settings.recoverEvery
  · rw [if_pos hearly]
    exact .inl rfl
  · rw [if_neg hearly]
    exact .inr (Queue.find?_recoverStale s.store k settings.staleAfter turn.sweptAt
      turn.sweptFailedAt)

theorem maybeRecover_outstanding (settings : Settings) (s : LoopState) (turn : Turn) (k : Nat) :
    (((maybeRecover settings s turn).store.jobs.find? k).map outstanding).getD 0 ≤
      ((s.store.jobs.find? k).map outstanding).getD 0 := by
  rcases maybeRecover_row settings s turn k with hrow | hrow
  · rw [hrow]
  · rw [hrow]
    cases s.store.jobs.find? k with
    | none => exact le_refl _
    | some j => exact outstanding_swept _ _ _ j

theorem maybeRecover_isSome (settings : Settings) (s : LoopState) (turn : Turn) (k : Nat) :
    ((maybeRecover settings s turn).store.jobs.find? k).isSome = (s.store.jobs.find? k).isSome := by
  rcases maybeRecover_row settings s turn k with hrow | hrow
  · rw [hrow]
  · rw [hrow, Option.isSome_map]

theorem loop_isSome (env : Platform) (settings : Settings) (s : LoopState) (turn : Turn) (k : Nat) :
    ((loop env settings s turn).store.jobs.find? k).isSome = (s.store.jobs.find? k).isSome := by
  rw [← maybeRecover_isSome settings s turn k]
  set recovered := (maybeRecover settings s turn).store with hrecovered
  have hloop : (loop env settings s turn).store = (runOnce env settings turn recovered).2 := rfl
  rw [hloop]
  cases hworked : (runOnce env settings turn recovered).1 with
  | false => rw [(runOnce_idle env hworked).1]
  | true =>
      obtain ⟨j, j', hj, -, -, hrows⟩ := runOnce_serves env hworked
      rw [hrows k]
      by_cases hk : k = j.id
      · rw [if_pos hk, hk, hj]
        rfl
      · rw [if_neg hk]

/-- A turn that finds a job takes from what is left to do. -/
theorem loop_spends (env : Platform) {jobs : List CollectionJob}
    (hjobs : ∀ k, (s.store.jobs.find? k).isSome = true → ∃ j₀ ∈ jobs, j₀.id = k) :
    (worked env settings s turn).toNat + outstandingIn jobs (loop env settings s turn) ≤
      outstandingIn jobs s := by
  set recovered := (maybeRecover settings s turn).store with hrecovered
  have hloop : (loop env settings s turn).store = (runOnce env settings turn recovered).2 := rfl
  have hswept (k : Nat) := maybeRecover_outstanding settings s turn k
  rw [← hrecovered] at hswept
  have hsame : worked env settings s turn = (runOnce env settings turn recovered).1 := rfl
  unfold outstandingIn
  rw [hloop, hsame]
  cases hworked : (runOnce env settings turn recovered).1 with
  | false =>
      rw [(runOnce_idle env hworked).1]
      rw [Bool.toNat_false, Nat.zero_add]
      exact List.sum_le_sum fun j₀ _ => hswept j₀.id
  | true =>
      obtain ⟨j, j', hj, hpending, hserved, hrows⟩ := runOnce_serves env hworked
      have hone : ∀ j₀ ∈ jobs, (decide (j₀.id = j.id)).toNat +
          (((runOnce env settings turn recovered).2.jobs.find? j₀.id).map outstanding).getD 0 ≤
            ((s.store.jobs.find? j₀.id).map outstanding).getD 0 := by
        intro j₀ _
        refine le_trans ?_ (hswept j₀.id)
        rw [hrows j₀.id]
        by_cases hid : j₀.id = j.id
        · have hless := hserved.outstanding_lt hpending
          rw [if_pos hid, hid, hj]
          simpa [Nat.add_comm] using hless
        · rw [if_neg hid]
          simp [hid]
      have hthere : (s.store.jobs.find? j.id).isSome = true := by
        rw [← maybeRecover_isSome settings s turn, ← hrecovered, hj]
        rfl
      have hany : (jobs.any fun j₀ => decide (j₀.id = j.id)) = true := by
        obtain ⟨j₀, hj₀, hid⟩ := hjobs j.id hthere
        exact List.any_eq_true.mpr ⟨j₀, hj₀, decide_eq_true hid⟩
      have hsum := sum_spent hone
      rwa [hany] at hsum

def Known (jobs : List CollectionJob) (s : LoopState) : Prop :=
  ∀ k, (s.store.jobs.find? k).isSome = true → ∃ j₀ ∈ jobs, j₀.id = k

theorem loop_tally (env : Platform) (settings : Settings) {jobs : List CollectionJob}
    (hknown : Known jobs s) (turns : List Turn) :
    tally (loop env settings) (worked env settings) s turns +
        outstandingIn jobs (execute (loop env settings) s turns) ≤ outstandingIn jobs s := by
  have hall : Always (loop env settings) (fun _ _ => True) s turns :=
    always_of_split fun _ _ _ _ => trivial
  refine hall.tally_le (outstandingIn jobs) hknown (fun s turn h _ k hk => h k ?_)
    fun s turn h _ => loop_spends env h
  rwa [loop_isSome] at hk

theorem outstandingIn_start (s : LoopState) :
    outstandingIn s.store.jobs.rows s = (s.store.jobs.rows.map outstanding).sum := by
  unfold outstandingIn
  congr 1
  refine List.map_congr_left fun j hj => ?_
  have hfind : s.store.jobs.find? j.id = some j := Table.find?_eq_some.mpr ⟨hj, rfl⟩
  rw [hfind]
  rfl

theorem timedelta_le {seconds : ℚ} {n : Int} (h : seconds * 1000000 ≤ n) : timedelta seconds ≤ n := by
  unfold timedelta
  dsimp only
  have hfloor : (seconds * 1000000).floor ≤ n := by
    have hle := Rat.floor_le (seconds * 1000000)
    exact_mod_cast hle.trans h
  split
  · exact hfloor
  · rename_i hround
    rcases lt_or_eq_of_le hfloor with hlt | heq
    · omega
    · exfalso
      apply hround
      left
      rw [heq]
      have hzero : seconds * 1000000 - n ≤ 0 := by linarith
      linarith

/-- Nobody waits longer than five minutes. -/
theorem backoff_le {jitter : ℚ} (h : jitter ≤ 1) (attempts : Nat) :
    timedelta (backoffSeconds attempts jitter) ≤ 300000000 := by
  apply timedelta_le
  unfold backoffSeconds
  have hdelay : min (baseBackoffSeconds * 2 ^ (attempts - 1)) maxBackoffSeconds ≤ 300 :=
    min_le_right _ _
  have hbase : (0 : ℚ) ≤ 5 * 2 ^ (attempts - 1) := by positivity
  have hpos : 0 ≤ min (baseBackoffSeconds * 2 ^ (attempts - 1)) maxBackoffSeconds :=
    le_min hbase (by norm_num [maxBackoffSeconds])
  dsimp only
  push_cast
  nlinarith

/-- By the given times every pending job is due and every running one is stale. -/
structure Timely (due silentSince : Instant) (s : LoopState) : Prop where
  pending : ∀ k j, s.store.jobs.find? k = some j → j.status = .pending →
    j.runAfter.all (fun t => t ≤ due) = true
  running : ∀ k j, s.store.jobs.find? k = some j → j.status = .running →
    j.silent silentSince = true

variable {due silentSince : Instant}

theorem swept_cases (staleAfter : ℚ) (now failedAt : Instant) (j : CollectionJob) :
    Queue.sweptRow staleAfter now failedAt j = j ∧
        (j.status = .running → j.silent (now - timedelta staleAfter) = false) ∨
      (Queue.sweptRow staleAfter now failedAt j).status = .failed ∨
      (Queue.sweptRow staleAfter now failedAt j).status = .pending ∧
        (Queue.sweptRow staleAfter now failedAt j).runAfter = none := by
  unfold Queue.sweptRow
  by_cases hstale : (j.running && j.silent (now - timedelta staleAfter)) = true
  · rw [if_pos hstale]
    by_cases hexhausted : j.exhausted = true
    · rw [if_pos hexhausted]
      exact .inr (.inl rfl)
    · rw [if_neg hexhausted]
      exact .inr (.inr ⟨rfl, rfl⟩)
  · rw [if_neg hstale]
    refine .inl ⟨rfl, fun hrunning => ?_⟩
    rw [CollectionJob.running_iff.mpr hrunning, Bool.true_and, Bool.not_eq_true] at hstale
    exact hstale

theorem Timely.recovered (h : Timely due silentSince s) (settings : Settings) (turn : Turn) :
    Timely due silentSince (maybeRecover settings s turn) := by
  have hrow (k : Nat) (j' : CollectionJob)
      (hj' : (maybeRecover settings s turn).store.jobs.find? k = some j') :
      s.store.jobs.find? k = some j' ∨ j'.status = .failed ∨
        j'.status = .pending ∧ j'.runAfter = none := by
    rcases maybeRecover_row settings s turn k with hsame | hswept
    · exact .inl (hsame.symm.trans hj')
    · obtain ⟨j, hj, rfl⟩ := Option.map_eq_some_iff.mp (hswept.symm.trans hj')
      rcases swept_cases settings.staleAfter turn.sweptAt turn.sweptFailedAt j with
        ⟨hkept, -⟩ | hchanged
      · rw [hkept]
        exact .inl hj
      · exact .inr hchanged
  constructor
  · intro k j' hj' hpending
    rcases hrow k j' hj' with hj | hfailed | ⟨-, hnone⟩
    · exact h.pending k j' hj hpending
    · rw [hfailed] at hpending
      cases hpending
    · rw [hnone]
      rfl
  · intro k j' hj' hrunning
    rcases hrow k j' hj' with hj | hfailed | ⟨hpending, -⟩
    · exact h.running k j' hj hrunning
    · rw [hfailed] at hrunning
      cases hrunning
    · rw [hpending] at hrunning
      cases hrunning

theorem Timely.loop (h : Timely due silentSince s) (env : Platform) (settings : Settings)
    (hjitter : turn.jitter ≤ 1) (hlate : turn.failedAt + 300000000 ≤ due) :
    Timely due silentSince (loop env settings s turn) := by
  have hrecovered := h.recovered settings turn
  set recovered := maybeRecover settings s turn
  have hloop : (Worker.loop env settings s turn).store =
      (runOnce env settings turn recovered.store).2 := rfl
  cases hworked : (runOnce env settings turn recovered.store).1 with
  | false =>
      have hsame := (runOnce_idle env hworked).1
      exact ⟨by rw [hloop, hsame]; exact hrecovered.pending,
        by rw [hloop, hsame]; exact hrecovered.running⟩
  | true =>
      obtain ⟨j, j', -, -, hserved, hrows⟩ := runOnce_serves env hworked
      constructor
      · intro k found hfound hpending
        rw [hloop, hrows k] at hfound
        by_cases hk : k = j.id
        · rw [if_pos hk] at hfound
          cases hfound
          have hbackoff := backoff_le hjitter j'.attempts
          rw [(hserved.waits hpending).2, Option.all_some, decide_eq_true_eq]
          exact (Int.add_le_add_left hbackoff _).trans hlate
        · rw [if_neg hk] at hfound
          exact hrecovered.pending k found hfound hpending
      · intro k found hfound hrunning
        rw [hloop, hrows k] at hfound
        by_cases hk : k = j.id
        · rw [if_pos hk] at hfound
          cases hfound
          exact absurd hrunning hserved.stopped
        · rw [if_neg hk] at hfound
          exact hrecovered.running k found hfound hrunning

theorem Timely.execute (h : Timely due silentSince s) (env : Platform) (settings : Settings)
    {turns : List Turn}
    (hearlier : ∀ turn ∈ turns, turn.jitter ≤ 1 ∧ turn.failedAt + 300000000 ≤ due) :
    Timely due silentSince (execute (Worker.loop env settings) s turns) := by
  induction turns generalizing s with
  | nil => exact h
  | cons turn turns ih =>
      obtain ⟨hjitter, hlate⟩ := hearlier turn List.mem_cons_self
      exact ih (h.loop env settings hjitter hlate) fun t ht =>
        hearlier t (List.mem_cons_of_mem turn ht)

/-- When everything is due, a turn that recovers and then finds no job leaves none to be done. -/
theorem Timely.drained (h : Timely turn.claimedAt (turn.sweptAt - timedelta settings.staleAfter) s)
    (hrecovers : settings.recoverEvery ≤ turn.loopTime - s.lastRecovery)
    (hidle : worked env settings s turn = false) :
    ∀ j ∈ (Worker.loop env settings s turn).store.jobs,
      j.status ≠ .pending ∧ j.status ≠ .running := by
  have hrecovered := h.recovered settings turn
  obtain ⟨hsame, hnone⟩ := runOnce_idle env hidle
  have hloop : (Worker.loop env settings s turn).store =
      (maybeRecover settings s turn).store := hsame
  have hswept : (maybeRecover settings s turn).store =
      (Queue.recoverStale s.store settings.staleAfter turn.sweptAt turn.sweptFailedAt).2 := by
    rw [maybeRecover, if_neg (Int.not_lt.mpr hrecovers)]
  intro j' hj'
  rw [hloop] at hj'
  have hfind : (maybeRecover settings s turn).store.jobs.find? j'.id = some j' :=
    Table.find?_eq_some.mpr ⟨hj', rfl⟩
  constructor
  · intro hpending
    have hdue : j'.runnable turn.claimedAt [] = true := by
      simp [CollectionJob.runnable, hpending, hrecovered.pending j'.id j' hfind hpending]
    rw [hnone j' hj'] at hdue
    cases hdue
  · intro hrunning
    have hrow := hfind
    rw [hswept, Queue.find?_recoverStale] at hrow
    obtain ⟨j, hj, hjob⟩ := Option.map_eq_some_iff.mp hrow
    rcases swept_cases settings.staleAfter turn.sweptAt turn.sweptFailedAt j with
      ⟨hkept, hloud⟩ | hfailed | ⟨hpending, -⟩
    · have hstatus : j.status = .running := by rw [← hkept, hjob, hrunning]
      have hsilent := h.running j'.id j hj hstatus
      rw [hloud hstatus] at hsilent
      cases hsilent
    · rw [hjob, hrunning] at hfailed
      cases hfailed
    · rw [hjob, hrunning] at hpending
      cases hpending

end Loop

end Worker

open Worker

/-- A worker that is alone takes no more jobs than there are attempts left, and a turn that finds
none, after the last backoff is over and the heartbeats of lost workers are stale, leaves no job
that is pending or running. -/
theorem lone_worker_drains (env : Platform) (settings : Settings) (s : LoopState)
    (turns : List Turn) :
    tally (loop env settings) (worked env settings) s turns ≤
        (s.store.jobs.rows.map outstanding).sum ∧
      ∀ last : Turn,
        (∀ turn ∈ turns, turn.jitter ≤ 1 ∧ turn.failedAt + 300000000 ≤ last.claimedAt) →
        (∀ j ∈ s.store.jobs, j.status = .pending →
          j.runAfter.all (fun t => t ≤ last.claimedAt) = true) →
        (∀ j ∈ s.store.jobs, j.status = .running →
          j.silent (last.sweptAt - timedelta settings.staleAfter) = true) →
        settings.recoverEvery ≤
          last.loopTime - (execute (loop env settings) s turns).lastRecovery →
        worked env settings (execute (loop env settings) s turns) last = false →
        ∀ j ∈ (execute (loop env settings) s (turns ++ [last])).store.jobs,
          j.status ≠ .pending ∧ j.status ≠ .running := by
  constructor
  · rw [← outstandingIn_start]
    have hknown : Known s.store.jobs.rows s := by
      intro k hk
      obtain ⟨j, hj⟩ := Option.isSome_iff_exists.mp hk
      exact ⟨j, Table.find?_eq_some.mp hj⟩
    exact Nat.le_of_add_right_le (loop_tally env settings hknown turns)
  · intro last hearlier hpending hrunning hrecovers hidle
    have hstart : Timely last.claimedAt (last.sweptAt - timedelta settings.staleAfter) s :=
      ⟨fun k j hj => hpending j (Table.find?_eq_some.mp hj).1,
        fun k j hj => hrunning j (Table.find?_eq_some.mp hj).1⟩
    rw [execute_append]
    exact (hstart.execute env settings hearlier).drained env hrecovers hidle

/-- The source of the job is not configured, so that every attempt fails. -/
def failingTurn (minute : Int) : Turn where
  loopTime := minute * 60000000
  sweptAt := minute * 60000000
  sweptFailedAt := minute * 60000000
  claimedAt := minute * 60000000
  startedAt := minute * 60000000
  finishedAt := minute * 60000000
  failedAt := minute * 60000000
  jitter := 0
  source := fun _ => none
  collection := ⟨[], .ok ()⟩
  describe := fun _ => []
  unknownSource := fun _ => "KeyError: 'unknown source: csv'".toList

theorem lone_worker_drains_failing :
    tally (loop .ascii ⟨"one".toList, 30000000, 60⟩) (worked .ascii ⟨"one".toList, 30000000, 60⟩)
        ⟨queuedStore, 0⟩ [failingTurn 10, failingTurn 20, failingTurn 30] ≤
        (queuedStore.jobs.rows.map outstanding).sum ∧
      ∀ j ∈ (execute (loop .ascii ⟨"one".toList, 30000000, 60⟩) ⟨queuedStore, 0⟩
          ([failingTurn 10, failingTurn 20, failingTurn 30] ++ [failingTurn 40])).store.jobs,
        j.status ≠ .pending ∧ j.status ≠ .running := by
  have hdrains := lone_worker_drains .ascii ⟨"one".toList, 30000000, 60⟩ ⟨queuedStore, 0⟩
    [failingTurn 10, failingTurn 20, failingTurn 30]
  exact ⟨hdrains.1, hdrains.2 (failingTurn 40) (by simp [failingTurn]) (by decide +kernel)
    (by decide +kernel) (by decide +kernel) (by decide +kernel)⟩

end LeadPipe
