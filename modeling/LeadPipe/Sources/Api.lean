import LeadPipe.Fetch.Client

/-!
# The API adapter

`app/sources/api_source.py`: pages of JSON, one after another, as the pages or a page number lead
on. What the adapter yields, and which pages it reads items from, is marked in its runs.
-/

namespace LeadPipe

open Framework Urllib

variable (web : Web) (policy : FetchPolicy)

def sourceError (name reason : Text) : Raised :=
  .source ("source '".toList ++ name ++ "': ".toList ++ reason)

/-- What the `_load` of either adapter begins with: a page that is no error, or a `SourceError` for
what the fetcher raises as its own. -/
def loadPage (name url : Text) (headers : Dict Text) : Fetch FetchResponse := do
  match ← Dialogue.attempt (Fetcher.get web policy url headers) with
  | .error (.fetch e) => .raise (sourceError name e.message)
  | .error e => .raise e
  | .ok response =>
      if response.statusCode ≥ 400 then
        .raise (sourceError name ("HTTP ".toList ++ Text.ofNat response.statusCode ++
          " for ".toList ++ url))
      else return response

namespace Json

def truthy : Json → Bool
  | null => false
  | bool value => value
  | number _ zero => !zero
  | str value => !value.isEmpty
  | arr items => !items.isEmpty
  | obj members => !members.isEmpty

/-- A step of a dotted path; a missing value and `null` are not told apart. -/
def member (part : Text) : Json → Option Json
  | obj members =>
      match Dict.get members part with
      | some null => none
      | found => found
  | _ => none

/-- Walk a dotted path, so nested shapes can be mapped from config. -/
def dig (payload : Json) (path : Text) : Option Json :=
  (path.splitOn '.').foldlM (fun value part => value.member part) payload

end Json

/-- `str` of a value -/
def strOf : Json → Except Raised Text
  | .str value => .ok value
  | value => (web.repr value).mapError .other

/-- `_text` -/
def textOf : Option Json → Except Raised (Option Text)
  | none => .ok none
  | some .null | some (.arr _) | some (.obj _) => .ok none
  | some value => (strOf web value).map fun s =>
      Text.orNone (Text.strip web.platform.unicode.isSpace s)

/-- `str` of an integer, which raises beyond the limit on digits. -/
def strInt (n : Int) : Except Raised Text :=
  if (Text.ofNat n.natAbs).length ≤ SplitResult.maxIntDigits then .ok (Text.ofInt n)
  else .error (.other ("Exceeds the limit (4300 digits) for integer string conversion; ".toList ++
    "use sys.set_int_max_str_digits() to increase the limit".toList))

def replaceParam (parts : SplitResult) (param value : Text) : Text :=
  let query := (parseQslValues parts.query).filter fun p => p.1 != param
  unsplit parts.scheme parts.netloc parts.path (urlencode (query ++ [(param, value)]))
    parts.fragment

/-- `_with_param` -/
def withParam (url param : Text) (value : Int) : Except Raised Text := do
  let parts ← splitUrl web url
  let value ← strInt value
  return replaceParam parts param value

/-- `_param_value` -/
def paramValue (url param : Text) (default : Int) : Except Raised Int := do
  let parts ← splitUrl web url
  return match (parseQslValues parts.query).find? fun p => p.1 == param with
    | some (_, value) =>
        (Text.int web.platform.unicode.isSpace web.decimal value).getD default
    | none => default

structure ApiOptions where
  url : Text
  headers : Dict Text
  itemsPath : Option Text
  nextPath : Option Text
  pageParam : Option Text
  startPage : Int
  maxPages : Int
  externalIdField : Option Text
  sourceUrlField : Option Text

structure ApiSource where
  name : Text
  mapping : Dict Text
  options : ApiOptions

namespace ApiSource

variable (source : ApiSource)

/-- `_first_url` -/
def firstUrl : Except Raised Text :=
  match source.options.pageParam with
  | none => .ok source.options.url
  | some param => withParam web source.options.url param source.options.startPage

/-- `_load` -/
def load (url : Text) : Fetch Json := do
  let response ← loadPage web policy source.name url source.options.headers
  Fetch.note (.listed url response.text)
  match web.loads response.text with
  | .ok payload => return payload
  | .error (.decodeError message) => .raise (sourceError source.name
      ("invalid JSON from ".toList ++ url ++ ": ".toList ++ message))
  | .error (.other message) => .raise (.other message)

/-- `_items` -/
def items (payload : Json) (url : Text) : Except Raised (List Json) :=
  let found :=
    if Text.truthy source.options.itemsPath then payload.dig (source.options.itemsPath.getD [])
    else some payload
  match found with
  | none | some .null => .ok []
  | some (.arr items) => .ok items
  | _ => .error (sourceError source.name ("expected a list at '".toList ++
      Text.orElse source.options.itemsPath "(root)".toList ++ "' in ".toList ++ url))

/-- `_next_url` -/
def nextUrl (payload : Json) (current : Text) (count : Nat) : Except Raised (Option Text) :=
  if Text.truthy source.options.nextPath then
    match payload.dig (source.options.nextPath.getD []) with
    | none => .ok none
    | some follow =>
        if follow.truthy then do
          let link ← strOf web follow
          return some (← joinUrl web current link)
        else .ok none
  else if Text.truthy source.options.pageParam && count != 0 then do
    let param := source.options.pageParam.getD []
    let page ← paramValue web current param source.options.startPage
    return some (← withParam web current param (page + 1))
  else .ok none

def fieldsOf (item : Json) : Except Raised (Dict (Option Text)) := do
  let fields ← source.mapping.mapM fun p => do return (p.1, ← textOf web (item.dig p.2))
  if Text.truthy source.options.externalIdField then
    let id ← textOf web (item.dig (source.options.externalIdField.getD []))
    return Dict.set fields "external_id".toList id
  else return fields

def sourceUrlOf (item : Json) (url : Text) : Except Raised (Option Text) :=
  if Text.truthy source.options.sourceUrlField then
    textOf web (item.dig (source.options.sourceUrlField.getD []))
  else .ok (some url)

/-- What the `try` of `_to_record` makes of an object. -/
def record (item : Json) (url : Text) (collectedAt : Instant) : Except Raised RawRecord := do
  let fields ← source.fieldsOf web item
  let sourceUrl ← source.sourceUrlOf web item url
  return ⟨⟨source.name, sourceUrl⟩, fields, collectedAt⟩

/-- `_to_record`; the value is quoted in the error either way. -/
def toRecord (item : Json) (url : Text) (collectedAt : Instant) : Except Raised CollectedItem :=
  match item with
  | .obj _ =>
      match source.record web item url collectedAt with
      | .ok raw => .ok (.record raw)
      | .error e => do
          let _ ← (web.repr item).mapError Raised.other
          return .error e.message
  | _ => do
      let _ ← (web.repr item).mapError Raised.other
      return .error "item is not an object".toList

def emit (url : Text) (collectedAt : Instant) : List Json → Fetch Unit
  | [] => return ()
  | item :: items => do
      let record ← Dialogue.lift (source.toRecord web item url collectedAt)
      Fetch.note (.yielded record)
      emit url collectedAt items

def listing (collectedAt : Instant) (url : Text) (payload : Json)
    (goOn : Option Text → Fetch Unit) : Fetch Unit := do
  let items ← Dialogue.lift (source.items payload url)
  source.emit web url collectedAt items
  let next ← Dialogue.lift (source.nextUrl web payload url items.length)
  goOn next

/-- The loop of `collect`, by the pages that are left. -/
def pages (collectedAt : Instant) : Nat → List Text → Option Text → Fetch Unit
  | 0, _, _ | _, _, none => return ()
  | left + 1, seen, some url =>
      if seen.contains url then return ()
      else do
        let payload ← source.load web policy url
        source.listing web collectedAt url payload fun next =>
          pages collectedAt left (url :: seen) next

def collect (collectedAt : Instant) : Fetch Unit := do
  let first ← Dialogue.lift (source.firstUrl web)
  source.pages web policy collectedAt source.options.maxPages.toNat [] (some first)

end ApiSource

end LeadPipe
