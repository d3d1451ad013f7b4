import LeadPipe.Pipeline.Collections

/-!
# What a run counts, and what it does not touch

An item that the suppression list blocks adds to two counters and does nothing else. Every other
item ends as a new lead, as a duplicate or as an error, and a record that is not blocked is
graded unless a web address of it cannot be split.
-/

namespace LeadPipe

open Framework Urllib

variable (env : Platform)

namespace CollectedItem

def blocked (suppressions : SuppressionList) (region : Option Text) : CollectedItem → Bool
  | .error _ => false
  | .record raw => (suppressions.blocks (normalizeRecord env raw region).toLeadPayload).isSome

end CollectedItem

section Opened

variable {s s' : Session Store Write RunStats} {config : SourceConfig} {jobId : Option Nat}
  {now : Instant} {opened : Source × CollectionJob × SuppressionList}

private theorem openRun_emits (h : s.Healthy)
    (hopen : openRun config jobId now s = (.ok opened, s')) : ∃ ws, s' = s.emit ws := by
  obtain ⟨upserted, ws, hup, -⟩ := SourceRepository.upsert_run h config.name config.type
    config.priority config.enabled config.options
  obtain ⟨source, job, suppressions⟩ := opened
  obtain ⟨-, -, vs, hs, -⟩ := openRun_opens h hup hopen
  exact ⟨_, hs⟩

theorem openRun_healthy (h : s.Healthy) (hopen : openRun config jobId now s = (.ok opened, s')) :
    s'.Healthy := by
  obtain ⟨ws, rfl⟩ := openRun_emits h hopen
  exact h.emit ws

theorem openRun_notes (h : s.Healthy) (hopen : openRun config jobId now s = (.ok opened, s')) :
    s'.notes = s.notes := by
  obtain ⟨ws, rfl⟩ := openRun_emits h hopen
  rfl

end Opened

section Suppressed

variable {s : Session Store Write RunStats}

def RunStats.oneSuppressed : RunStats := { collected := 1, suppressed := 1 }

private theorem oneSuppressed_add (n : RunStats) : RunStats.oneSuppressed + n =
    { n with collected := n.collected + 1, suppressed := n.suppressed + 1 } := by
  change RunStats.plus _ n = _
  simp [RunStats.plus, RunStats.oneSuppressed, Nat.add_comm]

private theorem blocked_turn {source : Source} {config : SourceConfig} {jobId : Nat}
    {suppressions : SuppressionList} {item : CollectedItem} {fault : Option Nat}
    (hblocked : item.blocked env suppressions config.region = true) (hs : s.fault = none) :
    Txn.armed fault (processItem env source config jobId suppressions item) s =
      (.ok (), s.ahead RunStats.oneSuppressed) := by
  cases item with
  | error message => cases hblocked
  | record raw =>
      obtain ⟨kind, hkind⟩ := Option.isSome_iff_exists.mp hblocked
      have hingest (s : Session Store Write RunStats) :
          ingest env ⟨source, config.priority, raw, config.region, jobId, suppressions⟩ s =
            (.ok (), s.ahead RunStats.oneSuppressed) := by
        unfold ingest
        simp only
        rw [Txn.bind_ok (Txn.note_run _ _), hkind]
        simp only [Session.ahead, oneSuppressed_add]
        rfl
      unfold Txn.armed processItem
      simp only [hingest]
      refine Prod.ext rfl ?_
      simp only [Session.ahead, Session.note, hs]

private theorem ahead_iterate (k : Nat) (s : Session Store Write RunStats) :
    (Session.ahead RunStats.oneSuppressed)^[k] s = s.note fun n =>
      { n with collected := n.collected + k, suppressed := n.suppressed + k } := by
  induction k generalizing s with
  | zero => rfl
  | succ k ih =>
      rw [Function.iterate_succ_apply, ih]
      simp only [Session.ahead, Session.note, oneSuppressed_add, Nat.add_assoc, Nat.add_comm 1]

/-- Without the suppressed records a loop leaves the same session, but for two counters. -/
theorem attemptEach_unblocked (source : Source) (config : SourceConfig) (jobId : Nat)
    (suppressions : SuppressionList) (items : List (CollectedItem × Option Nat))
    (hs : s.fault = none) :
    (Txn.attemptEach (processItem env source config jobId suppressions) RunStats.countError
        items s).2 =
      (Txn.attemptEach (processItem env source config jobId suppressions) RunStats.countError
        (items.filter fun i => !i.1.blocked env suppressions config.region) s).2.note fun n =>
          { n with
            collected := n.collected +
              items.countP fun i => i.1.blocked env suppressions config.region
            suppressed := n.suppressed +
              items.countP fun i => i.1.blocked env suppressions config.region } := by
  rw [← ahead_iterate]
  have hfailed : RunStats.Adds RunStats.countError := fun _ _ => rfl
  have hidle (i : CollectedItem) (fault : Option Nat) (s : Session Store Write RunStats)
      (hi : i.blocked env suppressions config.region = true) (hs : s.fault = none) :
      Txn.armed fault (processItem env source config jobId suppressions i) s =
        (.ok (), s.ahead RunStats.oneSuppressed) :=
    blocked_turn env hi hs
  exact Txn.attemptEach_filter (processItem_tallies env source config jobId suppressions) hfailed
    hidle items hs

/-- Processing only the records the list does not block leaves the same rows. -/
theorem suppressed_records_leave_no_trace (source : Source) (config : SourceConfig) (jobId : Nat)
    (suppressions : SuppressionList) (items : List (CollectedItem × Option Nat)) (st : Store) :
    let processed (items : List (CollectedItem × Option Nat)) :=
      (Txn.attemptEach (processItem env source config jobId suppressions) RunStats.countError
        items st.session).2
    let all := processed items
    let unblocked := processed (items.filter fun i => !i.1.blocked env suppressions config.region)
    let count := items.countP fun i => i.1.blocked env suppressions config.region
    all.view.records = unblocked.view.records ∧ all.view.leads = unblocked.view.leads ∧
      all.view.merges = unblocked.view.merges ∧ all.invalid = unblocked.invalid ∧
      all.notes = { unblocked.notes with
        collected := unblocked.notes.collected + count
        suppressed := unblocked.notes.suppressed + count } := by
  have hsame := attemptEach_unblocked env source config jobId suppressions items
    (s := st.session) rfl
  dsimp only
  rw [hsame]
  exact ⟨rfl, rfl, rfl, rfl, rfl⟩

end Suppressed

namespace RunStats

def outcomes (s : RunStats) : Nat := s.newLeads + s.duplicates + s.suppressed + s.errors

def grades (s : RunStats) : Nat := s.valid + s.invalid + s.unknown + s.suppressed

theorem outcomes_add (s t : RunStats) : (s + t).outcomes = s.outcomes + t.outcomes := by
  change (plus s t).outcomes = _
  simp only [plus, outcomes]
  omega

theorem grades_add (s t : RunStats) : (s + t).grades = s.grades + t.grades := by
  change (plus s t).grades = _
  simp only [plus, grades]
  omega

theorem collected_add (s t : RunStats) : (s + t).collected = s.collected + t.collected := rfl

end RunStats

namespace CollectedItem

/-- A record that is not blocked and has a web address that cannot be split. -/
def unsplit (suppressions : SuppressionList) (region : Option Text) : CollectedItem → Prop
  | .error _ => False
  | .record raw =>
      suppressions.blocks (normalizeRecord env raw region).toLeadPayload = none ∧
        ∃ url, ((normalizeRecord env raw region).website = some url ∨ raw.source.url = some url) ∧
          urlsplit env.unicode env.isIPv6 url = none

end CollectedItem

section Counters

variable {env} {s : Session Store Write RunStats} {call : IngestCall}

open RunStats Store

theorem validateUrlField_error {value : Option Text} {e : PyError} :
    validateUrlField env value = .error e ↔
      e = .valueError ∧ ∃ url, value = some url ∧ urlsplit env.unicode env.isIPv6 url = none := by
  unfold validateUrlField
  cases value with
  | none => simp
  | some url =>
      dsimp only
      cases h : urlsplit env.unicode env.isIPv6 url with
      | none => simp [h, eq_comm]
      | some parsed =>
          dsimp only
          split
          · simp [h]
          · split <;> simp [h]

/-- Validation raises exactly on web addresses that cannot be split. -/
theorem validateLead_raises {lead : NormalizedLead} :
    (validateLead env lead).isOk = false ↔
      ∃ url, (lead.website = some url ∨ lead.source.url = some url) ∧
        urlsplit env.unicode env.isIPv6 url = none := by
  have hfield (value : Option Text) : (∃ e, validateUrlField env value = .error e) ↔
      ∃ url, value = some url ∧ urlsplit env.unicode env.isIPv6 url = none := by
    simp only [validateUrlField_error, exists_and_right, exists_eq, true_and]
  have hraises : (validateLead env lead).isOk = false ↔
      (∃ e, validateUrlField env lead.website = .error e) ∨
        ∃ e, validateUrlField env lead.source.url = .error e := by
    unfold validateLead
    cases validateUrlField env lead.website with
    | error e => simp [bind, Except.bind, Except.isOk, Except.toBool]
    | ok website =>
        cases validateUrlField env lead.source.url with
        | error e => simp [bind, Except.bind, Except.isOk, Except.toBool]
        | ok sourceUrl =>
            simp [bind, Except.bind, pure, Except.pure, Except.isOk, Except.toBool]
  rw [hraises, hfield, hfield]
  constructor
  · rintro (⟨url, h, hsplit⟩ | ⟨url, h, hsplit⟩)
    · exact ⟨url, .inl h, hsplit⟩
    · exact ⟨url, .inr h, hsplit⟩
  · rintro ⟨url, h | h, hsplit⟩
    · exact .inl ⟨url, h, hsplit⟩
    · exact .inr ⟨url, h, hsplit⟩

private theorem started_balance (env : Platform) (call : IngestCall) :
    (call.started env).outcomes = 0 ∧ (call.started env).collected = 1 ∧
      (call.started env).grades = if (validateLead env (call.lead env)).isOk then 1 else 0 := by
  unfold IngestCall.started
  cases validateLead env (call.lead env) with
  | error e => exact ⟨rfl, rfl, rfl⟩
  | ok validation =>
      dsimp only
      cases validation.status <;> exact ⟨rfl, rfl, rfl⟩

private theorem completed_balance (st : Store) (hcall : call.blocked env = true ∨
    (validateLead env (call.lead env)).isOk = true) :
    (st.counted env call).outcomes = 1 ∧
      (st.counted env call).collected = (st.counted env call).grades := by
  unfold Store.counted
  split
  · exact ⟨rfl, rfl⟩
  · rename_i hopen
    obtain ⟨houtcomes, hcollected, hgrades⟩ := started_balance env call
    have hdecided (d : Decision) :
        d.counted.outcomes = 1 ∧ d.counted.collected = 0 ∧ d.counted.grades = 0 := by
      cases d <;> exact ⟨rfl, rfl, rfl⟩
    have hflagged : (st.flagged env call).outcomes = 0 ∧ (st.flagged env call).collected = 0 ∧
        (st.flagged env call).grades = 0 := by
      unfold Store.flagged
      split
      · split <;> exact ⟨rfl, rfl, rfl⟩
      · exact ⟨rfl, rfl, rfl⟩
    have hdecided := hdecided (st.decision env call)
    rw [if_pos (hcall.resolve_left hopen)] at hgrades
    rw [outcomes_add, outcomes_add, collected_add, collected_add, grades_add, grades_add]
    omega

/-- How much further the counters are after some items: `k` of them were collected and neither
graded nor suppressed. -/
private structure Counted (n n' : RunStats) (items k : Nat) : Prop where
  outcomes : n'.outcomes = n.outcomes + items
  collected : n'.collected + n.grades = n'.grades + n.collected + k

private theorem Counted.add {n m : RunStats} {items k : Nat} (houtcomes : m.outcomes = items)
    (hcollected : m.collected = m.grades + k) : Counted n (n + m) items k where
  outcomes := by rw [outcomes_add, houtcomes]
  collected := by
    rw [collected_add, grades_add, hcollected]
    omega

private theorem unsplit_iff (env : Platform) (call : IngestCall) :
    CollectedItem.unsplit env call.suppressions call.region (.record call.raw) ↔
      call.blocked env = false ∧ (validateLead env (call.lead env)).isOk = false := by
  rw [validateLead_raises]
  change (call.suppressions.blocks _ = none ∧ _) ↔
    (call.suppressions.blocks _).isSome = false ∧ _
  rw [Option.isSome_eq_false_iff, Option.isNone_iff_eq_none]
  rfl

/-- A record that raises is an error. It was counted as collected, and graded if it was
validated. -/
private theorem raised_counted (env : Platform) (h : s.Healthy) {call : IngestCall}
    {e : Exn PyError} (hrun : ingest env call s = (.error e, s')) :
    call.blocked env = false ∧ Counted s.notes (s'.note RunStats.countError).notes 1
      (if (validateLead env (call.lead env)).isOk then 0 else 1) := by
  obtain ⟨ws, haborts, -, -⟩ := ingest_raises env h hrun
  have hopen : call.blocked env = false := by cases haborts <;> assumption
  obtain ⟨houtcomes, hcollected, hgrades⟩ := started_balance env call
  have hnotes : (s'.note RunStats.countError).notes =
      s.notes + (call.started env + { errors := 1 }) := by
    rw [← RunStats.add_assoc, ← ingest_raises_counted env h hrun]
    rfl
  refine ⟨hopen, ?_⟩
  rw [hnotes]
  apply Counted.add
  · rw [outcomes_add, houtcomes]
    rfl
  · rw [collected_add, grades_add, hcollected, hgrades]
    split <;> rfl

private theorem completed_counted (env : Platform) (h : s.Healthy) {call : IngestCall} {a : Unit}
    (hrun : ingest env call s = (.ok a, s')) :
    (call.blocked env = true ∨ (validateLead env (call.lead env)).isOk = true) ∧
      Counted s.notes s'.notes 1 0 := by
  obtain ⟨ws, hingests, -, -⟩ := ingest_completes env h hrun
  have hgood : call.blocked env = true ∨ (validateLead env (call.lead env)).isOk = true := by
    cases hingests with
    | suppressed hblocked => exact .inl hblocked
    | placed _ hvalidates => exact .inr (by rw [hvalidates]; rfl)
  obtain ⟨houtcomes, hcollected⟩ := completed_balance s.view hgood
  refine ⟨hgood, ?_⟩
  rw [ingest_completes_counted env h hrun]
  exact Counted.add houtcomes hcollected

private theorem turn_counted (env : Platform) (h : s.Healthy) (source : Source)
    (config : SourceConfig) (jobId : Nat) (suppressions : SuppressionList) (item : CollectedItem)
    (items : List (CollectedItem × Option Nat)) :
    ∃ s' k, Txn.attemptEach (processItem env source config jobId suppressions)
          RunStats.countError ((item, none) :: items) s =
        Txn.attemptEach (processItem env source config jobId suppressions) RunStats.countError
          items s' ∧
      s'.Healthy ∧ Counted s.notes s'.notes 1 k ∧
      (k = 0 ↔ ¬item.unsplit env suppressions config.region) := by
  cases item with
  | error message =>
      have hrun : Txn.armed none (processItem env source config jobId suppressions
          (.error message)) s = (.ok (), s.note RunStats.countError) :=
        Txn.armed_healthy h (h.note _)
      have hcounted : Counted s.notes (s.notes + { errors := 1 }) 1 0 := Counted.add rfl rfl
      refine ⟨_, 0, Txn.attemptEach_ok_cons hrun, h.note _, hcounted, ?_⟩
      simp [CollectedItem.unsplit]
  | record raw =>
      set call : IngestCall :=
        ⟨source, config.priority, raw, config.region, jobId, suppressions⟩ with hcall
      have hfirst : Txn.armed none (processItem env source config jobId suppressions
          (.record raw)) s = ingest env call s :=
        Txn.armed_healthy h (ingest_outcome env call h).1
      have hunsplit : CollectedItem.unsplit env suppressions config.region (.record raw) ↔
          call.blocked env = false ∧ (validateLead env (call.lead env)).isOk = false :=
        unsplit_iff env call
      have hhealthy := (ingest_outcome env call h).1
      rw [hunsplit]
      cases hrun : ingest env call s with
      | mk out s' =>
          rw [hrun] at hfirst hhealthy
          cases out with
          | error e =>
              obtain ⟨hopen, hcounted⟩ := raised_counted env h hrun
              refine ⟨_, _, Txn.attemptEach_error_cons hfirst, hhealthy.note _, hcounted, ?_⟩
              cases (validateLead env (call.lead env)).isOk <;> simp [hopen]
          | ok a =>
              obtain ⟨hgood, hcounted⟩ := completed_counted env h hrun
              refine ⟨_, 0, Txn.attemptEach_ok_cons hfirst, hhealthy, hcounted, ?_⟩
              rcases hgood with hgood | hgood <;> simp [hgood]

private theorem loop_counted (env : Platform) (h : s.Healthy) (source : Source)
    (config : SourceConfig) (jobId : Nat) (suppressions : SuppressionList) (items : List CollectedItem) :
    ∃ s' k, Txn.attemptEach (processItem env source config jobId suppressions)
          RunStats.countError (items.map fun i => (i, none)) s = (.ok (), s') ∧
      s'.Healthy ∧ Counted s.notes s'.notes items.length k ∧
      (k = 0 ↔ ∀ item ∈ items, ¬item.unsplit env suppressions config.region) := by
  induction items generalizing s with
  | nil => exact ⟨s, 0, rfl, h, ⟨rfl, Nat.add_comm _ _⟩, by simp⟩
  | cons item items ih =>
      obtain ⟨s₁, k, hturn, h₁, hcounted, hk⟩ := turn_counted env h source config jobId
        suppressions item (items.map fun i => (i, none))
      obtain ⟨s', k', hloop, h', hrest, hk'⟩ := ih h₁
      refine ⟨s', k + k', hturn.trans hloop, h', ⟨?_, ?_⟩, ?_⟩
      · rw [hrest.outcomes, hcounted.outcomes, List.length_cons]
        omega
      · have hfirst := hcounted.collected
        have hlast := hrest.collected
        omega
      · rw [List.forall_mem_cons, ← hk, ← hk']
        omega

theorem loop_healthy (env : Platform) (h : s.Healthy) (source : Source) (config : SourceConfig)
    (jobId : Nat) (suppressions : SuppressionList) (items : List CollectedItem) :
    ∃ s', Txn.attemptEach (processItem env source config jobId suppressions)
      RunStats.countError (items.map fun i => (i, none)) s = (.ok (), s') ∧ s'.Healthy := by
  obtain ⟨s', k, hloop, h', -⟩ := loop_counted env h source config jobId suppressions items
  exact ⟨s', hloop, h'⟩

private theorem closeRun_notes (h : s.Healthy) (job : CollectionJob)
    (ending : Except PyError Unit) (now : Instant) :
    (closeRun job ending now s).2.notes = s.notes := by
  rcases ending with e | a
  · cases e with
    | valueError => rfl
    | sourceError message =>
        obtain ⟨s', hclose, hnotes⟩ := closeRun_reraises h job message now
        rw [hclose]
        exact hnotes
  · obtain ⟨s', jobs, results, hclose, -, hnotes, -⟩ := closeRun_closes h job now
    rw [hclose]
    exact hnotes

/-- In a run without a database failure every item ends as one of four, and all that is collected
is graded or suppressed exactly when no record that is not blocked has a web address that cannot
be split. -/
theorem counters_balance_iff {config : SourceConfig} {jobId : Option Nat}
    {startedAt : Instant} {st : Store} {source : Source} {job : CollectionJob}
    {suppressions : SuppressionList}
    (hopen : openRun config jobId startedAt st.session = (.ok (source, job, suppressions), s))
    (items : List CollectedItem) (ending : Except PyError Unit) (finishedAt : Instant) :
    let stats := (runCollection env config jobId ⟨items.map fun i => (i, none), ending⟩ startedAt
      finishedAt st.session).2.notes
    items.length = stats.newLeads + stats.duplicates + stats.suppressed + stats.errors ∧
      (stats.collected = stats.valid + stats.invalid + stats.unknown + stats.suppressed ↔
        ∀ item ∈ items, ¬item.unsplit env suppressions config.region) := by
  intro stats
  have hfresh : st.session.Healthy := ⟨rfl, rfl⟩
  have h : s.Healthy := openRun_healthy hfresh hopen
  have hnotes : s.notes = {} := openRun_notes hfresh hopen
  obtain ⟨s', k, hloop, h', hcounted, hk⟩ := loop_counted env h source config job.id
    suppressions items
  have hrun : runCollection env config jobId ⟨items.map fun i => (i, none), ending⟩ startedAt
      finishedAt st.session = closeRun job ending finishedAt s' := by
    unfold runCollection
    rw [Txn.bind_ok hopen]
    dsimp only
    rw [Txn.bind_ok hloop]
  have hstats : stats = s'.notes := by
    change (runCollection env config jobId _ startedAt finishedAt st.session).2.notes = _
    rw [hrun, closeRun_notes h']
  have houtcomes := hcounted.outcomes
  have hcollected := hcounted.collected
  rw [hnotes] at houtcomes hcollected
  have hzero : ({} : RunStats).outcomes = 0 ∧ ({} : RunStats).grades = 0 ∧
      ({} : RunStats).collected = 0 := ⟨rfl, rfl, rfl⟩
  rw [← hk, hstats]
  unfold RunStats.outcomes RunStats.grades at *
  constructor <;> omega

private def crm : SourceConfig := ⟨"crm".toList, "csv".toList, true, 0, none, []⟩

private def companyAt (website : String) : CollectedItem :=
  .record ⟨⟨"crm".toList, none⟩,
    [("company_name".toList, some "Acme".toList), ("website".toList, some website.toList)], 5⟩

theorem counters_balance_iff_address :
    let stats := (runCollection Platform.ascii crm none
      ⟨[companyAt "acme.fi", .error "row".toList].map fun i => (i, none), .ok ()⟩ 0 9
      Store.empty.session).2.notes
    2 = stats.newLeads + stats.duplicates + stats.suppressed + stats.errors ∧
      (stats.collected = stats.valid + stats.invalid + stats.unknown + stats.suppressed ↔
        ∀ item ∈ [companyAt "acme.fi", .error "row".toList],
          ¬item.unsplit Platform.ascii ⟨[], []⟩ none) := by
  have hopen : openRun crm none 0 Store.empty.session = (.ok (_, _, ⟨[], []⟩), _) := rfl
  exact counters_balance_iff hopen [companyAt "acme.fi", .error "row".toList] (.ok ()) 9

/-- A website with an open bracket is kept as it is written, and validation raises on it. -/
theorem counters_do_not_balance :
    let stats := (runCollection Platform.ascii crm none
      ⟨[(companyAt "http://[acme.fi", none)], .ok ()⟩ 0 9 Store.empty.session).2.notes
    stats.collected = 1 ∧ stats.errors = 1 ∧
      stats.collected ≠ stats.valid + stats.invalid + stats.unknown + stats.suppressed := by
  decide +kernel

end Counters

end LeadPipe
