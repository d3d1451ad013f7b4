import LeadPipe.Db.Models

/-!
# Sources and source records

`app/repositories/sources.py` and `app/repositories/records.py`.
-/

namespace LeadPipe

open Framework

variable (env : Platform)

namespace SourceRepository

def byName (st : Store) (name : Text) : Option Source :=
  (st.sources.select fun s => s.name == name).head?

def upsert (name type : Text) (priority : Int) (enabled : Bool) (config : Text) :
    Db Source := do
  match ← Txn.query fun st => byName st name with
  | none =>
      Db.insert (fun st => st.sources.next) .insertSource fun id =>
        ⟨id, name, type, priority, enabled, config⟩
  | some source =>
      let row := { source with type, priority, enabled, config }
      -- a flush of an object whose columns are what they were writes nothing
      if row ≠ source then
        Txn.execute (.updateSource row)
      return row

section

variable {s : Session Store Write RunStats} {name type config : Text} {priority : Int}
  {enabled : Bool}

theorem upsert_run (h : s.Healthy) (name type : Text) (priority : Int) (enabled : Bool)
    (config : Text) :
    ∃ source ws, upsert name type priority enabled config s = (.ok source, s.emit ws) ∧
      ∀ w ∈ ws, w.OfSources := by
  unfold upsert
  rw [Txn.bind_ok (Txn.query_healthy h _)]
  cases byName s.view name with
  | none =>
      dsimp only
      rw [Db.insert_healthy h]
      exact ⟨_, _, rfl, by simp [Write.OfSources]⟩
  | some source =>
      dsimp only
      split
      · rw [Txn.bind_ok (Txn.execute_healthy h _)]
        exact ⟨_, _, rfl, by simp [Write.OfSources]⟩
      · exact ⟨{ source with type, priority, enabled, config }, [], by simp, by simp⟩

theorem upsert_same (h : s.Healthy) {source : Source} (hfound : byName s.view name = some source)
    (hsame : { source with type, priority, enabled, config } = source) :
    upsert name type priority enabled config s = (.ok source, s.emit []) := by
  unfold upsert
  rw [Txn.bind_ok (Txn.query_healthy h _), hfound]
  simp [hsame]

theorem byName_eq_none {st : Store} {name : Text} :
    byName st name = none ↔ ∀ r ∈ st.sources, r.name ≠ name := by
  simp [byName, Table.select, Table.mem_def]

theorem upsert_new (h : s.Healthy) (name type : Text) (priority : Int) (enabled : Bool)
    (config : Text) (hnew : ∀ r ∈ s.view.sources, r.name ≠ name) :
    upsert name type priority enabled config s =
      (.ok ⟨s.view.sources.next, name, type, priority, enabled, config⟩,
        s.emit [.insertSource ⟨s.view.sources.next, name, type, priority, enabled, config⟩]) := by
  unfold upsert
  rw [Txn.bind_ok (Txn.query_healthy h _), byName_eq_none.mpr hnew]
  exact Db.insert_healthy h _ _ _

/-- The sources are told apart by their names. -/
def Named (st : Store) : Prop :=
  ∀ r ∈ st.sources, ∀ r' ∈ st.sources, r.name = r'.name → r = r'

/-- The upserted row has the name, and every row keeps its identifier and its name. -/
structure Upserts (st : Store) (name : Text) (source : Source) (st' : Store) : Prop where
  named : Named st'
  found : source ∈ st'.sources ∧ source.name = name
  kept : ∀ r ∈ st.sources, ∃ r' ∈ st'.sources, r'.id = r.id ∧ r'.name = r.name

private theorem upserts_insert {st : Store} (hnamed : Named st) (hnone : byName st name = none)
    (source : Source) (hname : source.name = name) (hid : source.id = st.sources.next) :
    Upserts st name source { st with sources := st.sources.put source } := by
  have hmem : ∀ r, r ∈ st.sources.put source ↔ r = source ∨ r ∈ st.sources := by
    intro r
    rw [Table.mem_put]
    refine or_congr_right ⟨fun hr => hr.1, fun hr => ⟨hr, ?_⟩⟩
    have hlt : r.id < st.sources.next := Table.key_lt_next hr
    simp only [key_source]
    omega
  refine ⟨fun r hr r' hr' hsame => ?_, ⟨(hmem source).mpr (.inl rfl), hname⟩, fun r hr =>
    ⟨r, (hmem r).mpr (.inr hr), rfl, rfl⟩⟩
  rcases (hmem r).mp hr with rfl | hold <;> rcases (hmem r').mp hr' with rfl | hold'
  · rfl
  · exact absurd (hsame.symm.trans hname) (byName_eq_none.mp hnone r' hold')
  · exact absurd (hsame.trans hname) (byName_eq_none.mp hnone r hold)
  · exact hnamed r hold r' hold' hsame

private theorem upserts_replace {st : Store} (hnamed : Named st) {source row : Source}
    (hfound : source ∈ st.sources) (hid : row.id = source.id) (hname : row.name = source.name) :
    Upserts st source.name row { st with sources := st.sources.replace row } := by
  have hkey : ∃ a ∈ st.sources, key a = key row := ⟨source, hfound, hid.symm⟩
  have hother {r : Source} (hr : r ∈ st.sources) (hne : key r ≠ key row) :
      r.name ≠ row.name := by
    intro hsame
    have heq := hnamed r hr source hfound (hsame.trans hname)
    exact hne (by rw [heq]; exact hid.symm)
  refine ⟨fun r hr r' hr' hsame => ?_, ⟨Table.mem_replace.mpr (.inl ⟨rfl, hkey⟩), hname⟩,
    fun r hr => ?_⟩
  · rcases Table.mem_replace.mp hr with ⟨rfl, -⟩ | ⟨hold, hne⟩ <;>
      rcases Table.mem_replace.mp hr' with ⟨rfl, -⟩ | ⟨hold', hne'⟩
    · rfl
    · exact absurd hsame.symm (hother hold' hne')
    · exact absurd hsame (hother hold hne)
    · exact hnamed r hold r' hold' hsame
  · by_cases hk : key r = key row
    · have heq : r = source := Table.eq_of_key hr hfound (hk.trans hid)
      rw [heq]
      exact ⟨row, Table.mem_replace.mpr (.inl ⟨rfl, hkey⟩), hid, hname⟩
    · exact ⟨r, Table.mem_replace.mpr (.inr ⟨hr, hk⟩), rfl, rfl⟩

theorem upsert_upserts (h : s.Healthy) (hnamed : Named s.view) (name type : Text)
    (priority : Int) (enabled : Bool) (config : Text) :
    ∃ source ws, upsert name type priority enabled config s = (.ok source, s.emit ws) ∧
      (∀ w ∈ ws, w.OfSources) ∧ Upserts s.view name source (s.emit ws).view := by
  unfold upsert
  rw [Txn.bind_ok (Txn.query_healthy h _)]
  cases hfound : byName s.view name with
  | none =>
      dsimp only
      rw [Db.insert_healthy h]
      exact ⟨_, _, rfl, by simp [Write.OfSources], upserts_insert hnamed hfound _ rfl rfl⟩
  | some source =>
      have hrow := Table.mem_select.mp (List.mem_of_head? hfound)
      have hname : source.name = name := by simpa using hrow.2
      dsimp only
      split
      · rw [Txn.bind_ok (Txn.execute_healthy h _)]
        refine ⟨_, _, rfl, by simp [Write.OfSources], ?_⟩
        rw [← hname]
        exact upserts_replace hnamed hrow.1 rfl rfl
      · rename_i hsame
        refine ⟨{ source with type, priority, enabled, config }, [], by simp, by simp, ?_⟩
        rw [not_not.mp hsame, Session.emit_nil]
        exact ⟨hnamed, ⟨hrow.1, hname⟩, fun r hr => ⟨r, hr, rfl, rfl⟩⟩

end

end SourceRepository

namespace SourceRecordRepository

/-- The source's own identifier when it gives one, else a digest of the payload. -/
def recordKey (lead : NormalizedLead) (externalId : Option Text) : Text :=
  match externalId with
  | some e => if e.isEmpty then env.digest lead.toLeadPayload else e
  | none => env.digest lead.toLeadPayload

def byKey (st : Store) (sourceId : Nat) (recordKey : Text) : Option SourceRecord :=
  (st.records.select fun r => r.sourceId == sourceId && r.recordKey == recordKey).head?

/-- The columns `upsert` assigns, on a new row or over an old one. -/
def fill (row : SourceRecord) (lead : NormalizedLead) (validation : LeadValidation)
    (jobId : Option Nat) (externalId : Option Text) : SourceRecord :=
  let fp := fingerprints env lead
  { row with
    jobId := jobId
    externalId := externalId
    sourceUrl := lead.source.url
    normalized := lead.toLeadPayload
    fpEmail := fp.email
    fpDomain := fp.domain
    fpPhone := fp.phone
    fpNameSlug := fp.nameSlug
    fpLocation := fp.location
    validationStatus := validation.status
    validationFields := validation.fields
    collectedAt := lead.collectedAt }

/-- A row with only its identity, as the mapper constructs it. -/
def blank (id sourceId : Nat) (recordKey : Text) (lead : NormalizedLead) : SourceRecord where
  id := id
  sourceId := sourceId
  jobId := none
  leadId := none
  recordKey := recordKey
  externalId := none
  sourceUrl := none
  normalized := lead.toLeadPayload
  fpEmail := none
  fpDomain := none
  fpPhone := none
  fpNameSlug := none
  fpLocation := none
  validationStatus := .unknown
  validationFields := []
  collectedAt := lead.collectedAt

/-- Also says whether the record was seen for the first time. -/
def upsert (sourceId : Nat) (lead : NormalizedLead) (validation : LeadValidation)
    (jobId : Option Nat) (externalId : Option Text) : Db (SourceRecord × Bool) := do
  let recordKey := recordKey env lead externalId
  match ← Txn.query fun st => byKey st sourceId recordKey with
  | none =>
      let row ← Db.insert (fun st => st.records.next) .insertRecord fun id =>
        fill env (blank id sourceId recordKey lead) lead validation jobId externalId
      return (row, true)
  | some record =>
      let row := fill env record lead validation jobId externalId
      Txn.execute (.updateRecord row)
      return (row, false)

end SourceRecordRepository

end LeadPipe
