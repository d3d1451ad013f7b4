import Mathlib.Logic.Function.Basic
import LeadPipe.Framework.Transition
import LeadPipe.System.Operations

/-!
# What the sources are configured with

The table of sources stands for a map from names to settings. A program that commits has set the
names of its configurations, one after the other, and nothing else changes the map; a row keeps its
number and its name for good.
-/

namespace LeadPipe

open Framework

/-- The columns of a source that are taken from its configuration. -/
structure SourceSettings where
  type : Text
  priority : Int
  enabled : Bool
  options : Text
  deriving DecidableEq

def SourceConfig.settings (config : SourceConfig) : SourceSettings :=
  ⟨config.type, config.priority, config.enabled, config.options⟩

def Source.settings (source : Source) : SourceSettings :=
  ⟨source.type, source.priority, source.enabled, source.config⟩

def Store.settings (st : Store) (name : Text) : Option SourceSettings :=
  (SourceRepository.byName st name).map Source.settings

/-- The map with the configurations set in it. -/
def lastSettings (map : Text → Option SourceSettings) (configs : List SourceConfig) :
    Text → Option SourceSettings :=
  configs.foldl (fun map config => Function.update map config.name (some config.settings)) map

/-- What the program is about to configure. -/
def Transaction.configs : Transaction → List SourceConfig
  | syncSources configs => configs
  | collect config _ _ _ _ | enqueue config _ | enqueueIfIdle config _ => [config]

namespace Store

variable {st st' : Store} {name : Text}

theorem byName_eq_some (hst : st.sources.Distinct Source.name) {source : Source} :
    SourceRepository.byName st name = some source ↔ source ∈ st.sources ∧ source.name = name := by
  constructor
  · intro h
    simpa using Table.mem_select.mp (List.mem_of_head? h)
  · rintro ⟨hmem, rfl⟩
    cases hfound : SourceRepository.byName st source.name with
    | none => exact absurd rfl (SourceRepository.byName_eq_none.mp hfound source hmem)
    | some other =>
        have hother := Table.mem_select.mp (List.mem_of_head? hfound)
        rw [hst other hother.1 source hmem (by simpa using hother.2)]

theorem settings_eq_some (hst : st.sources.Distinct Source.name) {settings : SourceSettings} :
    st.settings name = some settings ↔
      ∃ source ∈ st.sources, source.name = name ∧ source.settings = settings := by
  simp only [Store.settings, Option.map_eq_some_iff, byName_eq_some hst, and_assoc]

theorem settings_congr (h : st'.sources.rows = st.sources.rows) : st'.settings = st.settings := by
  funext name
  unfold Store.settings SourceRepository.byName Table.select
  rw [h]

theorem settings_update (hst : st.sources.Distinct Source.name)
    (hst' : st'.sources.Distinct Source.name) {row : Source} (hrow : row ∈ st'.sources)
    (hother : ∀ source : Source, source.name ≠ row.name →
      (source ∈ st'.sources ↔ source ∈ st.sources)) :
    st'.settings = Function.update st.settings row.name (some row.settings) := by
  funext name
  by_cases hname : name = row.name
  · rw [hname, Function.update_self]
    exact (settings_eq_some hst').mpr ⟨row, hrow, rfl, rfl⟩
  · rw [Function.update_of_ne hname]
    refine Option.ext fun settings => ?_
    rw [settings_eq_some hst', settings_eq_some hst]
    refine exists_congr fun source => ?_
    constructor
    · rintro ⟨hmem, rfl, hsettings⟩
      exact ⟨(hother source hname).mp hmem, rfl, hsettings⟩
    · rintro ⟨hmem, rfl, hsettings⟩
      exact ⟨(hother source hname).mpr hmem, rfl, hsettings⟩

end Store

/-- The names are distinct, the map is this one, and the rows there were are there under their
numbers and names. -/
structure Store.Configured (before : Table Source) (map : Text → Option SourceSettings)
    (st : Store) : Prop where
  names : st.sources.Distinct Source.name
  settings : st.settings = map
  kept : ∀ r ∈ before, ∃ r' ∈ st.sources, r'.id = r.id ∧ r'.name = r.name

namespace Store.Configured

variable {st : Store} {before : Table Source} {map : Text → Option SourceSettings}
  {config : SourceConfig}

theorem put (h : st.Configured before map) (hnew : ∀ r ∈ st.sources, r.name ≠ config.name)
    {row : Source} (hid : row.id = st.sources.next) (hname : row.name = config.name)
    (hsettings : row.settings = config.settings) :
    Store.Configured before (lastSettings map [config])
      { st with sources := st.sources.put row } := by
  obtain ⟨hnames, rfl, hkept⟩ := h
  have hdistinct : (st.sources.put row).Distinct Source.name := hnames.put fun a ha _ => by
    rw [hname]
    exact hnew a ha
  have hstays {source : Source} (hmem : source ∈ st.sources) : key source ≠ key row := by
    have hlt : source.id < st.sources.next := Table.key_lt_next hmem
    rw [key_source, key_source, hid]
    exact hlt.ne
  refine ⟨hdistinct, ?_, fun r hr => ?_⟩
  rotate_left
  · obtain ⟨r', hr', hsame⟩ := hkept r hr
    exact ⟨r', Table.mem_put.mpr (.inr ⟨hr', hstays hr'⟩), hsame⟩
  change _ = Function.update st.settings config.name (some config.settings)
  rw [← hname, ← hsettings]
  refine settings_update hnames hdistinct (Table.mem_put.mpr (.inl rfl)) fun source hother => ?_
  rw [Table.mem_put, or_iff_right fun hsame => hother (congrArg Source.name hsame)]
  exact and_iff_left_of_imp hstays

theorem replace (h : st.Configured before map) {source row : Source} (hsource : source ∈ st.sources)
    (hid : row.id = source.id) (hsame : row.name = source.name) (hname : row.name = config.name)
    (hsettings : row.settings = config.settings) :
    Store.Configured before (lastSettings map [config])
      { st with sources := st.sources.replace row } := by
  obtain ⟨hnames, rfl, hkept⟩ := h
  have hdistinct : (st.sources.replace row).Distinct Source.name :=
    hnames.replace (hnames.accepts hsource hid.symm hsame)
  have hthere : row ∈ st.sources.replace row :=
    Table.mem_replace.mpr (.inl ⟨rfl, source, hsource, hid.symm⟩)
  refine ⟨hdistinct, ?_, fun r hr => ?_⟩
  rotate_left
  · obtain ⟨r', hr', hid', hname'⟩ := hkept r hr
    by_cases hkey : key r' = key row
    · have heq := Table.eq_of_key hr' hsource (hkey.trans hid)
      exact ⟨row, hthere, by rw [hid, ← heq, hid'], by rw [hsame, ← heq, hname']⟩
    · exact ⟨r', Table.mem_replace.mpr (.inr ⟨hr', hkey⟩), hid', hname'⟩
  change _ = Function.update st.settings config.name (some config.settings)
  rw [← hname, ← hsettings]
  refine settings_update hnames hdistinct hthere fun other hother => ?_
  rw [Table.mem_replace, or_iff_right fun heq => hother (congrArg Source.name heq.1)]
  refine and_iff_left_of_imp fun hmem hkey => hother ?_
  rw [Table.eq_of_key hmem hsource (hkey.trans hid), hsame]

theorem same (h : st.Configured before map) {source : Source} (hsource : source ∈ st.sources)
    (hname : source.name = config.name) (hsettings : source.settings = config.settings) :
    st.Configured before (lastSettings map [config]) := by
  obtain ⟨hnames, rfl, hkept⟩ := h
  refine ⟨hnames, (Function.update_eq_self_iff.mpr ?_).symm, hkept⟩
  exact ((settings_eq_some hnames).mpr ⟨source, hsource, hname, hsettings⟩).symm

end Store.Configured

theorem SourceRepository.upsert_configures {before : Table Source} (config : SourceConfig)
    (map : Text → Option SourceSettings) :
    Db.Ensures (Store.Configured before map)
      (upsert config.name config.type config.priority config.enabled config.options)
      fun _ => Store.Configured before (lastSettings map [config]) := by
  refine .bind (.query _) fun found => ?_
  cases found with
  | none =>
      refine Db.insert_triple fun st hst => ⟨trivial, ?_⟩
      exact hst.1.put (byName_eq_none.mp hst.2.symm) rfl rfl rfl
  | some source =>
      have hsource {st : Store}
          (hst : st.Configured before map ∧ some source = byName st config.name) :
          source ∈ st.sources ∧ source.name = config.name :=
        (Store.byName_eq_some hst.1.names).mp hst.2.symm
      dsimp only
      split
      · refine .bind (.execute fun st hst => ⟨trivial, ?_⟩) fun _ => .pure fun _ hst => hst
        exact hst.1.replace (hsource hst).1 rfl rfl (hsource hst).2 rfl
      · rename_i hsame
        refine .pure fun st hst => ?_
        have hsettings := congrArg Source.settings (not_not.mp hsame)
        exact hst.1.same (hsource hst).1 (hsource hst).2 hsettings.symm

def Write.SparesSources (w : Write) : Prop := ∀ st, (w.apply st).sources = st.sources

theorem Write.OfRecords.sparesSources {w : Write} (h : w.OfRecords) : w.SparesSources := by
  intro st
  cases w <;> first | rfl | exact h.elim

theorem Write.OfJobs.sparesSources {w : Write} (h : w.OfJobs) : w.SparesSources := by
  intro st
  cases w <;> first | rfl | exact h.elim

variable {before : Table Source} {map : Text → Option SourceSettings}

theorem Store.Configured.write {st : Store} (h : st.Configured before map) {w : Write}
    (hw : w.SparesSources) : (w.apply st).Configured before map := by
  have hsources := hw st
  refine ⟨?_, (settings_congr (congrArg Table.rows hsources)).trans h.settings, ?_⟩
  · rw [hsources]
    exact h.names
  · rw [hsources]
    exact h.kept

theorem Db.Ensures.ofJobs {α : Type} {m : Db α} (h : Txn.Composed Write.OfJobs m) :
    Db.Ensures (Store.Configured before map) m fun _ => Store.Configured before map :=
  (Txn.Triple.composed h fun _ _ hst hw => hst.write hw.sparesSources).allow fun _ _ _ => trivial

namespace JobRepository

theorem create_ofJobs (sourceId : Nat) (now : Instant) :
    Txn.Composed Write.OfJobs (create sourceId now) :=
  Db.insert_composed _ _ _ fun _ => trivial

theorem assign_ofJobs (loaded assigned : CollectionJob) :
    Txn.Composed Write.OfJobs (assign loaded assigned) := by
  unfold assign
  dsimp only
  split
  · exact .bind (.execute trivial) fun _ => .pure _
  · exact .pure _

theorem saveResults_ofJobs (jobId : Nat) (counters : Persisted) :
    Txn.Composed Write.OfJobs (saveResults jobId counters) := by
  refine .bind (.query _) fun found => ?_
  cases found with
  | none => exact .bind (Db.insert_composed _ _ _ fun _ => trivial) fun _ => .pure _
  | some row => exact .execute trivial

end JobRepository

theorem openRun_configures (config : SourceConfig) (jobId : Option Nat) (now : Instant) :
    Db.Ensures (Store.Configured before map) (openRun config jobId now)
      fun _ => Store.Configured before (lastSettings map [config]) := by
  refine .bind (SourceRepository.upsert_configures config map) fun source => Db.Ensures.ofJobs ?_
  have hopened (job : CollectionJob) : Txn.Composed Write.OfJobs (do
      let job ← JobRepository.markRunning job now
      let suppressions ← SuppressionRepository.load
      return (source, job, suppressions) : Db (Source × CollectionJob × SuppressionList)) :=
    .bind (JobRepository.assign_ofJobs _ _) fun _ => .bind (.query _) fun _ => .pure _
  cases jobId with
  | some id =>
      refine .bind (.query _) fun found => ?_
      cases found with
      | none => exact .raise _
      | some job => exact hopened job
  | none =>
      refine .bind (.bind (JobRepository.create_ofJobs _ _) fun _ => .pure _) fun found => ?_
      cases found with
      | none => exact .raise _
      | some job => exact hopened job

theorem closeRun_ofJobs (job : CollectionJob) (ending : Except PyError Unit) (now : Instant) :
    Txn.Composed Write.OfJobs (closeRun job ending now) := by
  cases ending with
  | ok _ =>
      exact .bind .counters fun _ => .bind (JobRepository.saveResults_ofJobs _ _) fun _ =>
        .bind (JobRepository.assign_ofJobs _ _) fun _ => .pure _
  | error e =>
      cases e with
      | valueError => exact .raise _
      | sourceError message =>
          exact .bind .counters fun _ => .bind (JobRepository.saveResults_ofJobs _ _) fun _ =>
            .bind (JobRepository.assign_ofJobs _ _) fun _ => .raise _

variable {env : Platform}

theorem runCollection_configures (config : SourceConfig) (jobId : Option Nat)
    (collection : Collection) (startedAt finishedAt : Instant) :
    Db.Ensures (Store.Configured before map)
      (runCollection env config jobId collection startedAt finishedAt)
      fun _ => Store.Configured before (lastSettings map [config]) := by
  refine .bind (openRun_configures config jobId startedAt) fun opened => ?_
  obtain ⟨source, job, suppressions⟩ := opened
  have hkept (st : Store) (w : Write) (hst : st.Configured before (lastSettings map [config]))
      (hw : w.OfRecords) : (w.apply st).Configured before (lastSettings map [config]) :=
    hst.write hw.sparesSources
  have hitems : Db.Ensures (Store.Configured before (lastSettings map [config])) (Txn.attemptEach
      (processItem env source config job.id suppressions) RunStats.countError collection.items)
      fun _ => Store.Configured before (lastSettings map [config]) :=
    (Txn.Triple.attemptEach _ hkept (fun item => (Txn.Triple.composed
      (processItem_composed env source config job.id suppressions item) hkept).forget) _).allow
        fun _ _ _ => trivial
  exact .bind hitems fun _ => Db.Ensures.ofJobs (closeRun_ofJobs job collection.ending finishedAt)

theorem JobService.syncSources_configures (configs : List SourceConfig)
    (map : Text → Option SourceSettings) :
    Db.Ensures (Store.Configured before map) (syncSources configs)
      fun _ => Store.Configured before (lastSettings map configs) := by
  induction configs generalizing map with
  | nil => exact .pure fun _ hst => hst
  | cons config configs ih =>
      exact .bind (SourceRepository.upsert_configures config map) fun source =>
        .bind (ih (lastSettings map [config])) fun sources => .pure fun _ hst => hst

theorem Transaction.program_configures (t : Transaction) (before : Table Source)
    (map : Text → Option SourceSettings) :
    Db.Ensures (Store.Configured before map) (t.program env)
      fun _ => Store.Configured before (lastSettings map t.configs) := by
  cases t with
  | syncSources configs =>
      exact .bind (JobService.syncSources_configures configs map) fun _ => .pure fun _ hst => hst
  | collect config jobId collection startedAt finishedAt =>
      exact runCollection_configures config jobId collection startedAt finishedAt
  | enqueue config now =>
      refine .bind (.bind (SourceRepository.upsert_configures config map) fun source =>
        Db.Ensures.ofJobs ?_) fun _ => .pure fun _ hst => hst
      exact JobRepository.create_ofJobs _ _
  | enqueueIfIdle config now =>
      refine .bind (.bind (SourceRepository.upsert_configures config map) fun source =>
        Db.Ensures.ofJobs ?_) fun _ => .pure fun _ hst => hst
      refine .bind (.query _) fun _ => .bind (.query _) fun active => ?_
      cases active with
      | some _ => exact .pure _
      | none => exact .bind (JobRepository.create_ofJobs _ _) fun _ => .pure _

namespace Operation

/-- The operation is a program that commits, and this is the last it configures under the name. -/
def Configures (env : Platform) (name : Text) (settings : SourceSettings) (st : Store) :
    Operation → Prop
  | transaction t fault =>
      (∃ st', Txn.commit (t.program env) (Transaction.session st fault) = .ok st') ∧
        lastSettings (fun _ => none) t.configs name = some settings
  | _ => False

end Operation

theorem lastSettings_or (map : Text → Option SourceSettings) (configs : List SourceConfig)
    (name : Text) :
    lastSettings map configs name = (lastSettings (fun _ => none) configs name).or (map name) := by
  induction configs using List.reverseRecOn with
  | nil => rfl
  | append_singleton configs config ih =>
      simp only [lastSettings, List.foldl_append, List.foldl_cons, List.foldl_nil] at ih ⊢
      by_cases hname : name = config.name
      · rw [hname, Function.update_self, Function.update_self]
        rfl
      · rw [Function.update_of_ne hname, Function.update_of_ne hname]
        exact ih

variable {st : Store} {name : Text} {settings : SourceSettings}

theorem Transaction.settings_perform (hst : st.Consistent) (t : Transaction) (fault : Option Nat) :
    (t.perform env st fault).settings name = some settings ↔
      (Operation.transaction t fault).Configures env name settings st ∨
        st.settings name = some settings ∧
          ¬∃ settings, (Operation.transaction t fault).Configures env name settings st := by
  unfold perform Operation.Configures
  cases hcommit : Txn.commit (t.program env) (session st fault) with
  | error e =>
      have hback : (st.rolledBack (t.program env (session st fault)).2.view).settings =
          st.settings := Store.settings_congr rfl
      simp [hback, hcommit]
  | ok st' =>
      obtain ⟨_, -, hmap, -⟩ := (t.program_configures st.sources st.settings).commits
        (s := session st fault) ⟨hst.names, rfl, fun r hr => ⟨r, hr, rfl, rfl⟩⟩ hcommit
      dsimp only
      rw [hmap, lastSettings_or]
      cases lastSettings (fun _ => none) t.configs name with
      | none => simp
      | some set => simp [hcommit]

theorem Operation.sources_step {op : Operation} (h : ∀ t fault, op ≠ .transaction t fault) :
    (op.step env st).sources = st.sources := by
  cases op with
  | transaction t fault => exact absurd rfl (h t fault)
  | claim worker now locked =>
      simp only [step, Queue.claim]
      split <;> rfl
  | heartbeat jobId now => rfl
  | fail job error now jitter =>
      simp only [step, Queue.fail]
      split <;> rfl
  | recoverStale staleAfter now failedAt => rfl
  | deleteLead leadId suppressed =>
      exact deleteLeadRoute_keeps env (P := fun st' => st'.sources = st.sources)
        (fun _ leadId h => h) (fun _ _ h => h) rfl leadId suppressed
  | purge cutoff =>
      exact Store.purge_keeps (P := fun st' => st'.sources = st.sources) (fun _ _ h => h) rfl cutoff
  | suppress kind value reason =>
      obtain ⟨suppressions, hkeep⟩ := SuppressionRepository.add_keeps env st kind value reason
      simp only [step, hkeep]
  | unsuppress suppressionId => rfl
  | removeValue kind value =>
      exact SuppressionRepository.removeValue_keeps env (P := fun st' => st'.sources = st.sources)
        (fun _ _ h => h) rfl kind value

theorem Operation.settings_step (hst : st.Consistent) (op : Operation) :
    (op.step env st).settings name = some settings ↔
      op.Configures env name settings st ∨ st.settings name = some settings ∧
        ¬∃ settings, op.Configures env name settings st := by
  cases op with
  | transaction t fault => exact t.settings_perform hst fault
  | _ =>
      rw [Store.settings_congr (congrArg Table.rows
        (Operation.sources_step fun _ _ => Operation.noConfusion))]
      simp [Configures]

theorem Operation.keeps_source (hst : st.Consistent) (op : Operation) {source : Source}
    (hsource : source ∈ st.sources) :
    ∃ source' ∈ (op.step env st).sources, source'.id = source.id ∧ source'.name = source.name := by
  cases op with
  | transaction t fault =>
      simp only [step, Transaction.perform]
      cases hcommit : Txn.commit (t.program env) (Transaction.session st fault) with
      | error e => exact ⟨source, hsource, rfl, rfl⟩
      | ok st' =>
          obtain ⟨_, -, -, hkept⟩ := (t.program_configures st.sources st.settings).commits
            (s := Transaction.session st fault) ⟨hst.names, rfl, fun r hr => ⟨r, hr, rfl, rfl⟩⟩
            hcommit
          exact hkept source hsource
  | _ =>
      rw [Operation.sources_step fun _ _ => Operation.noConfusion]
      exact ⟨source, hsource, rfl, rfl⟩

/-- `SourceOut` -/
structure SourceOut where
  name : Text
  type : Text
  priority : Int
  enabled : Bool
  deriving DecidableEq

def SourceOut.of (name : Text) (settings : SourceSettings) : SourceOut :=
  ⟨name, settings.type, settings.priority, settings.enabled⟩

/-- `GET /api/sources`: a source that is not stored yet is shown as it is configured. -/
def listSources (st : Store) (configs : List SourceConfig) : List SourceOut :=
  configs.map fun item =>
    match SourceRepository.byName st item.name with
    | some source => .of source.name source.settings
    | none => .of item.name item.settings

theorem listSources_eq (hst : st.Consistent) (configs : List SourceConfig) :
    listSources st configs = configs.map fun item =>
      .of item.name ((st.settings item.name).getD item.settings) := by
  refine List.map_congr_left fun item _ => ?_
  unfold Store.settings
  cases hfound : SourceRepository.byName st item.name with
  | none => rfl
  | some source =>
      rw [← ((Store.byName_eq_some hst.names).mp hfound).2]
      rfl

/-- Under a name are the settings that the last program to commit with a configuration of the name
was given, and these are what is shown; its row keeps its number. -/
theorem sources_hold_last_configuration (ops : List Operation) :
    (∀ name settings,
      (execute (Operation.step env) .empty ops).settings name = some settings ↔
        Since (Operation.step env) (fun st op => op.Configures env name settings st)
          (fun st op => ∃ settings, op.Configures env name settings st) .empty ops) ∧
      (∀ configs, listSources (execute (Operation.step env) .empty ops) configs =
        configs.map fun item => .of item.name
          (((execute (Operation.step env) .empty ops).settings item.name).getD item.settings)) ∧
        ∀ source ∈ (execute (Operation.step env) .empty ops).sources, ∀ more : List Operation,
          ∃ source' ∈ (execute (Operation.step env) .empty (ops ++ more)).sources,
            source'.id = source.id ∧ source'.name = source.name := by
  have hreached : (execute (Operation.step env) .empty ops).Consistent :=
    Store.Reached.consistent ⟨ops, rfl⟩
  refine ⟨fun name settings => ?_, fun configs => listSources_eq hreached configs,
    fun source hsource more => ?_⟩
  · refine holds_iff_since (P := fun st => st.settings name = some settings)
      Store.consistent_empty ?_ (fun _ op hst => hst.step op) (fun _ op hst => op.settings_step hst)
      ops
    simp [Store.settings, SourceRepository.byName, Store.empty, Table.select, Table.empty]
  · have hstep (st : Store) (op : Operation) (hst : st.Consistent ∧
        ∃ r ∈ st.sources, r.id = source.id ∧ r.name = source.name) :
        (op.step env st).Consistent ∧
          ∃ r ∈ (op.step env st).sources, r.id = source.id ∧ r.name = source.name := by
      obtain ⟨hconsistent, r, hr, hid, hname⟩ := hst
      obtain ⟨r', hr', hid', hname'⟩ := op.keeps_source hconsistent hr
      exact ⟨hconsistent.step op, r', hr', hid'.trans hid, hname'.trans hname⟩
    rw [execute_append]
    exact (execute_invariant (I := fun st : Store => st.Consistent ∧
      ∃ r ∈ st.sources, r.id = source.id ∧ r.name = source.name)
      ⟨hreached, source, hsource, rfl, rfl⟩ hstep more).2

end LeadPipe
