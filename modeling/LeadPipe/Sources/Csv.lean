import LeadPipe.Framework.Csv
import LeadPipe.Python.Dicts
import LeadPipe.Sources.Api

/-!
# The CSV adapter

`app/sources/csv_source.py`: a file of delimited rows, read by the names in its first row. The file
is its text; an encoding that does not fit it is left out.
-/

namespace LeadPipe

open Framework

structure CsvOptions where
  path : Text
  delimiter : Text
  externalIdField : Option Text
  sourceUrlField : Option Text

/-- What `csv` raises: two errors of the constructor, and `csv.Error`. -/
inductive CsvFault where
  | delimiterLength
  | delimiterValue
  | refused (refusal : Csv.Refusal)

/-- The dialect that `csv.reader` makes of the option. -/
def csvDialect : Text → Except CsvFault (Csv.Dialect Char)
  | [c] =>
      if h : [c, '"', '\n', '\r'].Nodup then .ok ⟨c, '"', '\n', '\r', h⟩
      else .error .delimiterValue
  | _ => .error .delimiterLength

/-- A row of `csv.DictReader`; `surplus` is whether it has the key `None`. -/
structure DictRow where
  entries : Dict (Option Text)
  surplus : Bool

def dictRow (fieldnames row : List Text) : DictRow where
  entries := Dict.update [] (fieldnames.zip
    (row.map some ++ .replicate (fieldnames.length - row.length) none))
  surplus := fieldnames.length < row.length

/-- `_clean` -/
def cleanCell (env : Platform) (value : Option Text) : Option Text :=
  value.bind fun text => Text.orNone (Text.strip env.unicode.isSpace text)

structure CsvSource where
  name : Text
  mapping : Dict Text
  options : CsvOptions

namespace CsvSource

variable (env : Platform) (source : CsvSource)

/-- The record of a row, by what `_clean(row.get(column))` is for a column. -/
def record (value : Text → Option Text) (collectedAt : Instant) : RawRecord where
  source := ⟨source.name,
    if Text.truthy source.options.sourceUrlField then
      value (source.options.sourceUrlField.getD [])
    else none⟩
  fields :=
    let fields := source.mapping.map fun p => (p.1, value p.2)
    if Text.truthy source.options.externalIdField then
      Dict.set fields "external_id".toList (value (source.options.externalIdField.getD []))
    else fields
  collectedAt := collectedAt

/-- `_to_record`, in which nothing raises. -/
def toRecord (collectedAt : Instant) (row : DictRow) : CollectedItem :=
  if row.surplus then .error "row has more columns than the header".toList
  else .record (source.record (fun column => cleanCell env (row.entries.get column).join)
    collectedAt)

def missing (fieldnames : List Text) : List Text :=
  ((source.mapping.map Prod.snd).filter fun column => !fieldnames.contains column).dedup

/-- The items of the rows: the first is the header, and blank ones are passed over. -/
def collectRows (collectedAt : Instant) (ending : Except Raised Unit) (rows : List (List Text)) :
    List CollectedItem × Except Raised Unit :=
  let fieldnames := rows.headD []
  let missing := source.missing fieldnames
  if missing.isEmpty then
    ((rows.tail.filter fun row => !row.isEmpty).map fun row =>
      source.toRecord env collectedAt (dictRow fieldnames row), ending)
  else
    ([], .error (sourceError source.name ("columns not in file: ".toList ++
      Text.join ", ".toList (missing.mergeSort fun a b => decide (a ≤ b)))))

/-- `collect`: what it yields, and how it ends. There may be no file. -/
def collect (message : CsvFault → Text) (file : Option Text) (collectedAt : Instant) :
    List CollectedItem × Except Raised Unit :=
  match file with
  | none =>
      ([], .error (sourceError source.name ("file not found: ".toList ++ source.options.path)))
  | some text =>
      match csvDialect source.options.delimiter with
      | .error fault => ([], .error (.other (message fault)))
      | .ok dialect =>
          match Csv.rowsOf dialect Csv.fieldLimit text with
          | (rows, none) => source.collectRows env collectedAt (.ok ()) rows
          | ([], some refusal) => ([], .error (.other (message (.refused refusal))))
          | (rows, some refusal) =>
              source.collectRows env collectedAt (.error (.other (message (.refused refusal)))) rows

end CsvSource

end LeadPipe
