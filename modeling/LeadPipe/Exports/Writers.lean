import LeadPipe.Api.Listing
import LeadPipe.Framework.Csv
import LeadPipe.Framework.JsonText

/-!
# Exports

`app/exports`, over the pages of the lead repository, as `leadpipe export` writes them. The texts
are those of the chunks one after another; both are read back, by `csv.reader` and `json.loads`.
-/

namespace LeadPipe

open Framework Framework.JsonText Framework.Csv

/-- What a lead is written with: `datetime.isoformat`, and the order in which PostgreSQL aggregates
distinct names. -/
structure Rendering where
  isoformat : Instant → Text
  arrayAgg : Finset Text → List Text

def ValidationStatus.value : ValidationStatus → Text
  | valid => "valid".toList
  | invalid => "invalid".toList
  | unknown => "unknown".toList

def columns : List Text :=
  ["id".toList, "company_name".toList, "contact_name".toList, "website".toList, "email".toList,
    "phone".toList, "address".toList, "city".toList, "country".toList,
    "validation_status".toList, "sources".toList, "first_seen_at".toList, "last_seen_at".toList]

inductive ExportValue where
  | number (value : Nat)
  | text (value : Option Text)
  | texts (values : List Text)
  | time (value : Instant)

variable (r : Rendering)

/-- `_record` -/
def exportRecord (row : LeadExport) : Dict ExportValue :=
  [("id".toList, .number row.lead.id),
    ("company_name".toList, .text row.lead.companyName),
    ("contact_name".toList, .text row.lead.contactName),
    ("website".toList, .text row.lead.website),
    ("email".toList, .text row.lead.email),
    ("phone".toList, .text row.lead.phone),
    ("address".toList, .text row.lead.address),
    ("city".toList, .text row.lead.city),
    ("country".toList, .text row.lead.country),
    ("validation_status".toList, .text (some row.lead.validationStatus.value)),
    ("sources".toList, .texts (r.arrayAgg row.sources)),
    ("first_seen_at".toList, .time row.lead.firstSeenAt),
    ("last_seen_at".toList, .time row.lead.lastSeenAt)]

/-- `_cell` -/
def cell : ExportValue → Text
  | .number value => Text.ofNat value
  | .text none => []
  | .text (some value) => value
  | .texts values => Text.join [';'] values
  | .time value => r.isoformat value

def cells (row : LeadExport) : List Text :=
  columns.filterMap fun column => ((exportRecord r row).get column).map (cell r)

def writeCsv (rows : List LeadExport) : List Text :=
  excel.writeRow columns :: rows.map fun row => excel.writeRow (cells r row)

/-- A value as `json.dumps` finds it or, for a time, `_json_value` makes it. -/
def jsonValue : ExportValue → Value
  | .number value => .number (.ofNat value)
  | .text none => .null
  | .text (some value) => .str value
  | .texts values => .arr (values.map .str)
  | .time value => .str (r.isoformat value)

def jsonRecord (row : LeadExport) : Value :=
  .obj ((exportRecord r row).map fun p => (p.1, jsonValue r p.2))

def jsonRows : Text → List LeadExport → List Text
  | _, [] => []
  | separator, row :: rows =>
      (separator ++ "  ".toList ++ dumps (jsonRecord r row)) :: jsonRows ",\n".toList rows

def writeJson (rows : List LeadExport) : List Text :=
  "[\n".toList :: jsonRows r [] rows ++ ["\n]\n".toList]

def formats : List Text := ["csv".toList, "json".toList]

/-- The writer of a format; `none` is the `ValueError` of `export_leads`. -/
def exportLeads (exportFormat : Text) (rows : List LeadExport) : Option (List Text) :=
  if exportFormat ∉ formats then none
  else if exportFormat = "csv".toList then some (writeCsv r rows)
  else some (writeJson r rows)

/-- `LeadRepository.count` -/
def LeadRepository.count (env : Platform) (sqlLower : Text → Text) (snap : Snapshot)
    (filters : LeadFilter) : Nat :=
  (snap.store.leads.select (conditions env sqlLower snap filters)).length

/-- `_export`: the file, the count, and whether the pages that it reads are at their end. The count
is of one state, and every page is read in a state of its own. -/
def exportFile (env : Platform) (sqlLower : Text → Text) (exportFormat : Text)
    (filters : LeadFilter) (counted : Snapshot) (snaps : List Snapshot) :
    Option (Text × Nat × Bool) :=
  let (rows, ended) := LeadRepository.iterExport env sqlLower filters 500 snaps 0
  (exportLeads r exportFormat rows).map fun chunks =>
    (chunks.flatten, LeadRepository.count env sqlLower counted filters, ended)

/-- The rows of an export that reads its pages in these states. -/
structure Covers (env : Platform) (sqlLower : Text → Text) (filters : LeadFilter)
    (snaps : List Snapshot) (ended : Bool) (rows : List LeadExport) : Prop where
  ordered : rows.Pairwise fun a b => a.lead.id < b.lead.id
  sound : ∀ row ∈ rows, ∃ snap ∈ snaps, row ∈ LeadRepository.matching env sqlLower snap filters
  once : ended = true → ∀ id, (∀ snap ∈ snaps,
    ∃ row ∈ LeadRepository.matching env sqlLower snap filters, row.lead.id = id) →
      (rows.map fun row => row.lead.id).count id = 1
  unchanged : ∀ snap, snaps = .replicate (LeadRepository.count env sqlLower snap filters + 1) snap →
    rows = LeadRepository.matching env sqlLower snap filters ∧
      rows.length = LeadRepository.count env sqlLower snap filters ∧ ended = true

section Rows

variable (env : Platform) (sqlLower : Text → Text) (filters : LeadFilter)

theorem length_matching (snap : Snapshot) :
    (LeadRepository.matching env sqlLower snap filters).length =
      LeadRepository.count env sqlLower snap filters := List.length_map _

theorem iterExport_covers (snaps : List Snapshot) :
    Covers env sqlLower filters snaps (LeadRepository.iterExport env sqlLower filters 500 snaps 0).2
      (LeadRepository.iterExport env sqlLower filters 500 snaps 0).1 where
  ordered := (iterExport_scansOnce env sqlLower filters (by decide)).ordered snaps
  sound := (iterExport_scansOnce env sqlLower filters (by decide)).sound snaps
  once hended id hstays :=
    (iterExport_scansOnce env sqlLower filters (by decide)).once snaps id hstays hended
  unchanged snap hsnaps := by
    have hsize : 1 ≤ 500 := by decide
    have hscan := (iterExport_scansOnce env sqlLower filters hsize).unchanged snap
    rw [length_matching, ← hsnaps] at hscan
    rw [hscan]
    exact ⟨rfl, length_matching env sqlLower filters snap, rfl⟩

end Rows

theorem writeCsv_flatten (rows : List LeadExport) :
    (writeCsv r rows).flatten = writeRows excel (columns :: rows.map (cells r)) := by
  rw [writeRows, List.flatMap_cons, List.flatMap_map]
  rfl

theorem columns_short : ∀ text ∈ columns, text.length ≤ fieldLimit := by decide

theorem rowsOf_writeCsv {rows : List LeadExport}
    (hcells : ∀ row ∈ rows, ∀ text ∈ cells r row, text.length ≤ fieldLimit) :
    rowsOf excel fieldLimit (writeCsv r rows).flatten = (columns :: rows.map (cells r), none) := by
  rw [writeCsv_flatten]
  apply rowsOf_writeRows
  intro row hrow
  rcases List.mem_cons.mp hrow with rfl | hrow
  · exact columns_short
  · obtain ⟨lead, hlead, rfl⟩ := List.mem_map.mp hrow
    exact hcells lead hlead

/-- The export reads back as its header and one row for each lead, whatever the leads contain. -/
theorem export_csv_read_back (env : Platform) (sqlLower : Text → Text) (filters : LeadFilter)
    (counted : Snapshot) (snaps : List Snapshot)
    (hcells : ∀ snap ∈ snaps, ∀ row ∈ LeadRepository.matching env sqlLower snap filters,
      ∀ text ∈ cells r row, text.length ≤ fieldLimit) :
    ∃ text ended rows,
      exportFile r env sqlLower "csv".toList filters counted snaps =
        some (text, LeadRepository.count env sqlLower counted filters, ended) ∧
      rowsOf excel fieldLimit text = (columns :: rows.map (cells r), none) ∧
      Covers env sqlLower filters snaps ended rows := by
  have hcovers := iterExport_covers env sqlLower filters snaps
  refine ⟨_, _, _, rfl, rowsOf_writeCsv r fun row hrow => ?_, hcovers⟩
  obtain ⟨snap, hsnap, hmatch⟩ := hcovers.sound row hrow
  exact hcells snap hsnap row hmatch

def quotedLeads : Snapshot where
  store := { Store.empty with
    leads := Table.empty.put
      { companyName := some "Kim \"K\" Lee, Ltd".toList, contactName := none, website := none,
        websiteDomain := none, email := none, phone := none,
        address := some "1 High St\nLeeds".toList, city := some "Leeds".toList,
        country := some "GB".toList, extra := [], id := 1, nameSlug := none, locationKey := none,
        validationStatus := .valid, firstSeenAt := 0, lastSeenAt := 0 } }
  createdAt := fun _ => 0
  leads_from_one := by decide
  jobs_sourced := by decide
  results_unique := by decide

theorem export_csv_read_back_quoted :
    ∃ text ended rows,
      exportFile ⟨fun _ => "1970-01-01T00:00:00+00:00".toList, fun _ => []⟩ .ascii id
          "csv".toList {} quotedLeads [quotedLeads] =
        some (text, LeadRepository.count .ascii id quotedLeads {}, ended) ∧
      rowsOf excel fieldLimit text =
        (columns :: rows.map (cells ⟨fun _ => "1970-01-01T00:00:00+00:00".toList, fun _ => []⟩),
          none) ∧
      Covers .ascii id {} [quotedLeads] ended rows :=
  export_csv_read_back _ .ascii id {} quotedLeads [quotedLeads] (by decide)

theorem jsonRows_flatten (separator : Text) (row : LeadExport) (rows : List LeadExport) :
    (jsonRows r separator (row :: rows)).flatten =
      separator ++ "  ".toList ++
        dumpsItems "\n  ".toList ((row :: rows).map (jsonRecord r)) := by
  induction rows generalizing separator row with
  | nil => rw [jsonRows, jsonRows, List.flatten_singleton]; rfl
  | cons next rows ih =>
      rw [jsonRows, List.flatten_cons, ih]
      simp [dumpsItems]

theorem exportRecord_keys (row : LeadExport) : (exportRecord r row).map Prod.fst = columns := rfl

theorem jsonValue_keyed (value : ExportValue) : Keyed (jsonValue r value) := by
  cases value with
  | number value => exact .number _
  | text value =>
      cases value with
      | none => exact .null
      | some value => exact .str value
  | texts values =>
      refine .arr fun v hv => ?_
      obtain ⟨text, -, rfl⟩ := List.mem_map.mp hv
      exact .str text
  | time value => exact .str _

theorem jsonRecord_keyed (row : LeadExport) : Keyed (jsonRecord r row) := by
  refine .obj ?_ fun p hp => ?_
  · have hkeys : ((exportRecord r row).map fun p => (p.1, jsonValue r p.2)).map Prod.fst =
        columns := by
      rw [List.map_map]
      exact exportRecord_keys r row
    rw [hkeys]
    decide
  · obtain ⟨q, -, rfl⟩ := List.mem_map.mp hp
    exact jsonValue_keyed r q.2

theorem loads_writeJson (rows : List LeadExport) :
    loads (writeJson r rows).flatten = some (.arr (rows.map (jsonRecord r))) := by
  have hkeyed : ∀ v ∈ rows.map (jsonRecord r), Keyed v := by
    intro v hv
    obtain ⟨row, -, rfl⟩ := List.mem_map.mp hv
    exact jsonRecord_keyed r row
  cases rows with
  | nil => rfl
  | cons row rows =>
      have hspace : ∀ c ∈ "\n  ".toList, isSpace c = true := List.all_eq_true.mp rfl
      have hbreak : ∀ c ∈ ['\n'], isSpace c = true := List.all_eq_true.mp rfl
      have hread := loads_items hspace hspace hbreak hbreak hkeyed
      rw [← hread, writeJson, List.flatten_append, List.flatten_cons, jsonRows_flatten]
      simp

/-- The export is one JSON value: the list of the records of the leads. -/
theorem export_json_read_back (env : Platform) (sqlLower : Text → Text) (filters : LeadFilter)
    (counted : Snapshot) (snaps : List Snapshot) :
    ∃ text ended rows,
      exportFile r env sqlLower "json".toList filters counted snaps =
        some (text, LeadRepository.count env sqlLower counted filters, ended) ∧
      loads text = some (.arr (rows.map (jsonRecord r))) ∧
      Covers env sqlLower filters snaps ended rows :=
  ⟨_, _, _, rfl, loads_writeJson r _, iterExport_covers env sqlLower filters snaps⟩

end LeadPipe
