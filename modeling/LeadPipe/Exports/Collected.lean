import LeadPipe.Exports.Writers
import LeadPipe.Sources.Csv

/-!
# An export as a source

The file of `leadpipe export` as the input of a CSV source: every lead is a row, and every row is a
record.
-/

namespace LeadPipe

open Framework Framework.Csv

variable (env : Platform) (r : Rendering)

def exportedCell (row : LeadExport) (column : Text) : Option Text :=
  ((exportRecord r row).get column).bind fun value => cleanCell env (some (cell r value))

theorem get_map {α β : Type} (d : Dict α) (f : α → β) (k : Text) :
    Dict.get (d.map fun p => (p.1, f p.2)) k = (d.get k).map f := by
  induction d with
  | nil => rfl
  | cons p d ih =>
      rw [List.map_cons, Dict.get_cons, Dict.get_cons, ih]
      by_cases h : p.1 = k <;> simp [h]

theorem columns_keyed (row : LeadExport) : (exportRecord r row).Keyed := by
  rw [Dict.Keyed, exportRecord_keys]
  decide

theorem cells_eq (row : LeadExport) :
    cells r row = (exportRecord r row).map fun p => cell r p.2 := by
  have hkeys : cells r row = ((exportRecord r row).map Prod.fst).filterMap fun column =>
      ((exportRecord r row).get column).map (cell r) := rfl
  rw [hkeys, List.filterMap_map, ← List.filterMap_eq_map]
  apply List.filterMap_congr
  intro p hp
  have hget := Dict.get_of_mem (columns_keyed r row) hp
  simp [hget]

theorem cells_length (row : LeadExport) : (cells r row).length = columns.length := by
  rw [cells_eq, List.length_map, ← exportRecord_keys r row, List.length_map]

theorem dictRow_cells (row : LeadExport) (column : Text) :
    ((dictRow columns (cells r row)).entries.get column).join =
      ((exportRecord r row).get column).map (cell r) := by
  have hzip : columns.zip ((cells r row).map some ++
      .replicate (columns.length - (cells r row).length) none) =
        (exportRecord r row).map fun p => (p.1, some (cell r p.2)) := by
    rw [cells_length, Nat.sub_self, List.replicate_zero, List.append_nil, cells_eq,
      ← exportRecord_keys r row, List.map_map, List.zip_map']
    rfl
  have hkeyed : Dict.Keyed ((exportRecord r row).map fun p => (p.1, some (cell r p.2))) := by
    rw [Dict.Keyed, List.map_map]
    exact columns_keyed r row
  rw [dictRow, hzip, Dict.get_update [] hkeyed, get_map (exportRecord r row) fun v => some (cell r v)]
  cases (exportRecord r row).get column <;> rfl

theorem dictRow_surplus (row : LeadExport) : (dictRow columns (cells r row)).surplus = false := by
  simp [dictRow, cells_length]

theorem toRecord_cells (source : CsvSource) (collectedAt : Instant) (row : LeadExport) :
    source.toRecord env collectedAt (dictRow columns (cells r row)) =
      .record (source.record (exportedCell env r row) collectedAt) := by
  have hvalue : (fun column => cleanCell env
      ((dictRow columns (cells r row)).entries.get column).join) = exportedCell env r row := by
    funext column
    rw [dictRow_cells, exportedCell]
    cases (exportRecord r row).get column <;> rfl
  rw [CsvSource.toRecord, dictRow_surplus, if_neg Bool.false_ne_true, hvalue]

theorem missing_columns {source : CsvSource} (h : ∀ p ∈ source.mapping, p.2 ∈ columns) :
    source.missing columns = [] := by
  have hnone : (source.mapping.map Prod.snd).filter (fun column => !columns.contains column) = [] := by
    rw [List.filter_eq_nil_iff]
    intro column hcolumn
    obtain ⟨p, hp, rfl⟩ := List.mem_map.mp hcolumn
    simpa using h p hp
  rw [CsvSource.missing, hnone]
  rfl

/-- A CSV source over an export yields a record for each lead that was exported, in the same order,
and nothing else. -/
theorem export_collected_again (sqlLower : Text → Text) (filters : LeadFilter) (counted : Snapshot)
    (snaps : List Snapshot) (message : CsvFault → Text) (source : CsvSource) (collectedAt : Instant)
    (hcells : ∀ snap ∈ snaps, ∀ row ∈ LeadRepository.matching env sqlLower snap filters,
      ∀ text ∈ cells r row, text.length ≤ fieldLimit)
    (hdelimiter : source.options.delimiter = [','])
    (hmapping : ∀ p ∈ source.mapping, p.2 ∈ columns) :
    ∃ text ended rows,
      exportFile r env sqlLower "csv".toList filters counted snaps =
        some (text, LeadRepository.count env sqlLower counted filters, ended) ∧
      source.collect env message (some text) collectedAt =
        (rows.map fun row => .record (source.record (exportedCell env r row) collectedAt),
          .ok ()) ∧
      Covers env sqlLower filters snaps ended rows := by
  have hcovers := iterExport_covers env sqlLower filters snaps
  refine ⟨_, _, _, rfl, ?_, hcovers⟩
  set rows := (LeadRepository.iterExport env sqlLower filters 500 snaps 0).1
  have hread : rowsOf excel fieldLimit (writeCsv r rows).flatten =
      (columns :: rows.map (cells r), none) := by
    apply rowsOf_writeCsv
    intro row hrow
    obtain ⟨snap, hsnap, hmatch⟩ := hcovers.sound row hrow
    exact hcells snap hsnap row hmatch
  have hdialect : csvDialect source.options.delimiter = .ok excel := by
    rw [hdelimiter]
    rfl
  have hfull : ((rows.map (cells r)).filter fun row => !row.isEmpty) = rows.map (cells r) := by
    rw [List.filter_eq_self]
    intro row hrow
    obtain ⟨lead, -, rfl⟩ := List.mem_map.mp hrow
    have hlength := cells_length r lead
    cases hcells : cells r lead with
    | nil => rw [hcells] at hlength; cases hlength
    | cons text texts => rfl
  unfold CsvSource.collect
  simp only [hdialect, hread]
  unfold CsvSource.collectRows
  simp only [List.headD_cons, missing_columns hmapping, List.isEmpty_nil, if_true, List.tail_cons,
    hfull, List.map_map]
  refine Prod.ext (List.map_congr_left fun row _ => ?_) rfl
  exact toRecord_cells env r source collectedAt row

def exportSource : CsvSource where
  name := "export".toList
  mapping := [("company_name".toList, "company_name".toList), ("address".toList, "address".toList)]
  options := ⟨"leads.csv".toList, [','], some "id".toList, none⟩

theorem export_collected_again_quoted :
    ∃ text ended rows,
      exportFile ⟨fun _ => "1970-01-01T00:00:00+00:00".toList, fun _ => []⟩ .ascii id
          "csv".toList {} quotedLeads [quotedLeads] =
        some (text, LeadRepository.count .ascii id quotedLeads {}, ended) ∧
      exportSource.collect .ascii (fun _ => []) (some text) 5 =
        (rows.map fun row => .record (exportSource.record (exportedCell .ascii
          ⟨fun _ => "1970-01-01T00:00:00+00:00".toList, fun _ => []⟩ row) 5), .ok ()) ∧
      Covers .ascii id {} [quotedLeads] ended rows :=
  export_collected_again .ascii _ id {} quotedLeads [quotedLeads] (fun _ => []) exportSource 5
    (by decide) rfl (by decide)

end LeadPipe
