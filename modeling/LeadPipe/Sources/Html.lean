import LeadPipe.Sources.Api

/-!
# The HTML adapter

`app/sources/html_source.py`: listings and the detail pages they link to. Whatever goes wrong with
one record is caught there, and what goes wrong with a listing is not.
-/

namespace LeadPipe

open Framework

structure HtmlOptions where
  url : Text
  itemSelector : Text
  detailLink : Option Text
  detailMapping : Dict Text
  nextSelector : Option Text
  maxPages : Int
  maxItems : Option Int
  headers : Dict Text
  parser : Text

structure HtmlSource where
  name : Text
  mapping : Dict Text
  options : HtmlOptions

namespace HtmlSource

variable (web : Web) (policy : FetchPolicy)

def parse (text parser : Text) : Except Raised web.html.Node :=
  (web.html.parse text parser).mapError .other

def select (node : web.html.Node) (selector : Text) : Except Raised (List web.html.Node) :=
  (web.html.select node selector).mapError .other

def selectOne (node : web.html.Node) (selector : Text) :
    Except Raised (Option web.html.Node) :=
  (web.html.selectOne node selector).mapError .other

def render (node : web.html.Node) : Except Raised Text := (web.html.render node).mapError .other

/-- The node a selector stands for; the empty one stands for the node itself. -/
def targetOf (node : web.html.Node) (selector : Text) : Except Raised (Option web.html.Node) :=
  if selector.isEmpty then .ok (some node) else selectOne web node selector

/-- `.selector` for text, `.selector@attr` for an attribute, `@attr` for the node itself. -/
def extract (node : web.html.Node) (spec : Text) : Except Raised (Option Text) := do
  let (selector, found, name) := Text.rpartition '@' spec
  let (selector, name) := if found then (selector, name) else (spec, [])
  match ← targetOf web node selector with
  | none => return none
  | some target =>
      if name.isEmpty then return cleanText web.platform (some (web.html.getText target))
      else
        match web.html.get target name with
        | none => return none
        | some (.inl value) => return cleanText web.platform (some value)
        | some (.inr values) => return cleanText web.platform (some (Text.join [' '] values))

/-- `href or None`, as a text. -/
def hrefOf (link : web.html.Node) : Option Text :=
  match web.html.get link "href".toList with
  | none => none
  | some (.inl value) => Text.orNone value
  | some (.inr values) => if values.isEmpty then none else some (web.html.str values)

def follow (current : Text) : Option Text → Except Raised (Option Text)
  | none => .ok none
  | some href => (joinUrl web current href).map some

variable (source : HtmlSource)

/-- `_load` -/
def load (url : Text) : Fetch Text := do
  let response ← loadPage web policy source.name url source.options.headers
  return response.text

/-- `_next_url` -/
def nextUrl (soup : web.html.Node) (current : Text) : Except Raised (Option Text) :=
  if Text.truthy source.options.nextSelector then do
    let link ← selectOne web soup (source.options.nextSelector.getD [])
    follow web current (link.bind (hrefOf web))
  else .ok none

/-- `_detail_url` -/
def detailUrl (node : web.html.Node) (url : Text) : Except Raised (Option Text) :=
  if Text.truthy source.options.detailLink then do
    let href ← extract web node (source.options.detailLink.getD [])
    follow web url href
  else .ok none

def overlay (detail : web.html.Node) :
    Dict Text → Dict (Option Text) → Except Raised (Dict (Option Text))
  | [], fields => .ok fields
  | (target, selector) :: mapping, fields => do
      match ← extract web detail selector with
      | none => overlay detail mapping fields
      | some value => overlay detail mapping (Dict.set fields target (some value))

/-- The detail page of a record; a page that is blocked or broken loses one record. -/
def detailed (fields : Dict (Option Text)) (collectedAt : Instant) (url : Text) :
    Fetch CollectedItem := do
  let tried ← Dialogue.attempt do
    let text ← source.load web policy url
    Dialogue.lift (parse web text source.options.parser)
  match tried with
  | .error (.source message) => return .error message
  | .error e => .raise e
  | .ok detail =>
      let fields ← Dialogue.lift (overlay web detail source.options.detailMapping fields)
      return .record ⟨⟨source.name, some url⟩, fields, collectedAt⟩

/-- The `try` of `_to_record`. -/
def record (node : web.html.Node) (url : Text) (collectedAt : Instant) :
    Fetch CollectedItem := do
  let fields ← Dialogue.lift
    (source.mapping.mapM fun p => do return (p.1, ← extract web node p.2))
  let _ ← Dialogue.lift (render web node)
  match ← Dialogue.lift (source.detailUrl web node url) with
  | none => return .record ⟨⟨source.name, some url⟩, fields, collectedAt⟩
  | some detail => source.detailed web policy fields collectedAt detail

/-- `_to_record`: malformed markup must not end the collection. -/
def toRecord (node : web.html.Node) (url : Text) (collectedAt : Instant) :
    Fetch CollectedItem := do
  match ← Dialogue.attempt (source.record web policy node url collectedAt) with
  | .ok item => return item
  | .error e => do
      let _ ← Dialogue.lift (render web node)
      return .error e.message

/-- `max_items` is reached; zero is no bound. -/
def enough (emitted : Int) : Bool :=
  match source.options.maxItems with
  | none => false
  | some bound => bound != 0 && bound ≤ emitted

/-- The records of a listing: how many there are by now, or nothing if that is enough. -/
def emit (url : Text) (collectedAt : Instant) :
    List web.html.Node → Nat → Fetch (Option Nat)
  | [], emitted => return some emitted
  | node :: nodes, emitted => do
      let item ← source.toRecord web policy node url collectedAt
      Fetch.note (.yielded item)
      if source.enough (emitted + 1) then return none
      else emit url collectedAt nodes (emitted + 1)

def listing (collectedAt : Instant) (url text : Text) (emitted : Nat)
    (goOn : Nat → Option Text → Fetch Unit) : Fetch Unit := do
  let soup ← Dialogue.lift (parse web text source.options.parser)
  let nodes ← Dialogue.lift (select web soup source.options.itemSelector)
  match ← source.emit web policy url collectedAt nodes emitted with
  | none => return ()
  | some emitted => do
      let next ← Dialogue.lift (source.nextUrl web soup url)
      goOn emitted next

/-- The loop of `collect`, by the pages that are left. -/
def pages (collectedAt : Instant) : Nat → List Text → Nat → Option Text → Fetch Unit
  | 0, _, _, _ | _, _, _, none => return ()
  | left + 1, seen, emitted, some url =>
      if seen.contains url then return ()
      else do
        let text ← source.load web policy url
        Fetch.note (.listed url text)
        source.listing web policy collectedAt url text emitted fun emitted next =>
          pages collectedAt left (url :: seen) emitted next

def collect (collectedAt : Instant) : Fetch Unit :=
  source.pages web policy collectedAt source.options.maxPages.toNat [] 0 (some source.options.url)

end HtmlSource

end LeadPipe
