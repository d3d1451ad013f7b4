import LeadPipe.Framework.Dialogue
import LeadPipe.Pipeline.Runner
import LeadPipe.Python.Urljoin

/-!
# Fetching: the web and the safety of addresses

`app/fetch/errors.py`, `policy.py` and `urls.py`, and what fetching asks of the network. Throttling
and back-off take time: they appear as the calls they are.
-/

namespace LeadPipe

open Framework Urllib

/-- The properties `ipaddress` gives an address. -/
structure IpAddress where
  isPrivate : Bool
  isLoopback : Bool
  isLinkLocal : Bool
  isReserved : Bool
  isMulticast : Bool
  isUnspecified : Bool

/-- `raises` is an exception that is no `OSError`, such as the `UnicodeError` of a host name that
cannot be encoded. -/
inductive Resolution where
  | addresses (found : List Text)
  | osError
  | raises (message : Text)

inductive Json where
  | null
  | bool (value : Bool)
  | number (literal : Text) (zero : Bool)
  | str (value : Text)
  | arr (items : List Json)
  | obj (members : List (Text × Json))

/-- `json.loads` raises a `JSONDecodeError`, or on numbers and depths beyond the limits of the
interpreter something else. -/
inductive JsonFailure where
  | decodeError (message : Text)
  | other (message : Text)

/-- BeautifulSoup. A parser that is unknown and a selector that is malformed raise. -/
structure Html where
  Node : Type
  parse : (text parser : Text) → Except Text Node
  select : Node → (selector : Text) → Except Text (List Node)
  selectOne : Node → (selector : Text) → Except Text (Option Node)
  /-- An attribute; several values are those of an attribute such as `class`. -/
  get : Node → (name : Text) → Option (Text ⊕ List Text)
  /-- `get_text(" ", strip=True)` -/
  getText : Node → Text
  /-- `str` of a node, which raises where it is nested too deep. -/
  render : Node → Except Text Text
  /-- `str` of a list of attribute values. -/
  str : List Text → Text

/-- The libraries the fetcher and the adapters read the network's answers with. A robots parser is
the lines it was given. -/
structure Web where
  platform : Platform
  decimal : Char → Option Nat
  resolver : Text → Resolution
  ipAddress : Text → Option IpAddress
  /-- The message of the `ValueError` that `urlsplit` or `urljoin` raises. -/
  urlError : Text → Text
  robotsParse : List Text → Except Text Unit
  canFetch : List Text → Text → Text → Except Text Bool
  robotsDelay : List Text → Text → Except Text (Option Nat)
  loads : Text → Except JsonFailure Json
  /-- `repr` of a value, which raises where it is nested too deep. -/
  repr : Json → Except Text Text
  html : Html

inductive FetchError where
  | fetchError (message : Text)
  | unsafeUrl (message : Text)
  | robotsDisallowed (message : Text)
  | responseTooLarge (message : Text)
  | tooManyRedirects (message : Text)
  deriving DecidableEq

def FetchError.message : FetchError → Text
  | fetchError m | unsafeUrl m | robotsDisallowed m | responseTooLarge m | tooManyRedirects m => m

/-- `other` is any exception that is no `FetchError`, no `SourceError` and no transport error of
the client. -/
inductive Raised where
  | fetch (error : FetchError)
  | source (message : Text)
  | transport (message : Text)
  | other (message : Text)
  deriving DecidableEq

def Raised.message : Raised → Text
  | fetch e => e.message
  | source m | transport m | other m => m

structure FetchPolicy where
  maxResponseBytes : Int
  maxRedirects : Int
  retries : Int
  respectRobots : Bool
  robotsTtl : Int
  allowPrivateHosts : Bool
  contact : Option Text

def FetchPolicy.default : FetchPolicy where
  maxResponseBytes := 5000000
  maxRedirects := 5
  retries := 2
  respectRobots := true
  robotsTtl := 3600000000
  allowPrivateHosts := false
  contact := none

def FetchPolicy.userAgent (policy : FetchPolicy) : Text :=
  let agent := "LeadPipe/0.1.0".toList
  match policy.contact with
  | some contact => if contact.isEmpty then agent else agent ++ " (+".toList ++ contact ++ [')']
  | none => agent

/-- `transport` is a `TransportError` of the client. -/
inductive Failure where
  | transport (message : Text)
  | other (message : Text)

def Failure.raised : Failure → Raised
  | transport m => .transport m
  | other m => .other m

/-- A response as it comes in; its body may break off. Header names are in lower case. -/
structure Answer where
  url : Text
  status : Nat
  headers : Dict Text
  chunks : List (List UInt8)
  broken : Option Failure

inductive Reply where
  | failed (failure : Failure)
  | answered (answer : Answer)

structure FetchResponse where
  url : Text
  statusCode : Nat
  content : List UInt8
  headers : Dict Text
  deriving DecidableEq

/-- `bytes.decode("utf-8", errors="replace")` -/
def FetchResponse.text (r : FetchResponse) : Text :=
  decodeUtf8 r.content.length (r.content.map UInt8.toNat)

structure RobotsRules where
  parser : Option (List Text)
  allowAll : Bool
  denyAll : Bool
  fetchedAt : Instant

/-- Pages are requested by `_request`, `robots.txt` by `_fetch_robots`. -/
inductive Purpose where
  | page
  | robots
  deriving DecidableEq

/-- Notes are no calls: they mark in a run what a function of the program returned. -/
inductive Note where
  | vetted (url : Text)
  | rules (url : Text) (rules : RobotsRules)
  | listed (url text : Text)
  | yielded (item : CollectedItem)

inductive Call where
  | request (purpose : Purpose) (url : Text) (headers : Dict Text)
  | cached (origin : Text)
  | remember (origin : Text) (rules : RobotsRules)
  | clock
  | wait (host : Text) (interval : Option Nat)
  | sleep (attempt : Nat)
  | note (note : Note)

def Call.Answer : Call → Type
  | request .. => Reply
  | cached _ => Option RobotsRules
  | clock => Instant
  | remember .. | wait .. | sleep _ | note _ => Unit

abbrev Fetch (α : Type) := Dialogue Call.Answer Raised α

namespace Fetch

def note (n : Note) : Fetch Unit := Dialogue.ask (Call.note n)

def now : Fetch Instant := Dialogue.ask Call.clock

def cached (origin : Text) : Fetch (Option RobotsRules) := Dialogue.ask (Call.cached origin)

def remember (origin : Text) (rules : RobotsRules) : Fetch Unit :=
  Dialogue.ask (Call.remember origin rules)

def wait (host : Text) (interval : Option Nat) : Fetch Unit :=
  Dialogue.ask (Call.wait host interval)

def sleep (attempt : Nat) : Fetch Unit := Dialogue.ask (Call.sleep attempt)

def send (purpose : Purpose) (url : Text) (headers : Dict Text) : Fetch Reply :=
  Dialogue.ask (Call.request purpose url headers)

end Fetch

variable (web : Web)

def allowedSchemes : List Text := ["http".toList, "https".toList]

def isPublicAddress (value : Text) : Bool :=
  match web.ipAddress value with
  | none => false
  | some a => !(a.isPrivate || a.isLoopback || a.isLinkLocal || a.isReserved || a.isMulticast ||
      a.isUnspecified)

def splitUrl (url : Text) : Except Raised SplitResult :=
  match urlsplit web.platform.unicode web.platform.isIPv6 url with
  | none => .error (.other (web.urlError url))
  | some parts => .ok parts

def joinUrl (base url : Text) : Except Raised Text :=
  match urljoin web.platform.unicode web.platform.isIPv6 base url with
  | none => .error (.other (web.urlError url))
  | some joined => .ok joined

/-- Every address must be public: a name resolving to both is still a way in. -/
def safeAddresses (url host : Text) : Resolution → Except Raised Text
  | .raises message => .error (.other message)
  | .osError => .error (.fetch (.unsafeUrl ("cannot resolve host: ".toList ++ host)))
  | .addresses addresses =>
      if addresses.isEmpty then
        .error (.fetch (.unsafeUrl ("cannot resolve host: ".toList ++ host)))
      else
        match addresses.find? fun address => !isPublicAddress web address with
        | some blocked =>
            .error (.fetch (.unsafeUrl ("host ".toList ++ host ++
              " resolves to a non-public address: ".toList ++ blocked)))
        | none => .ok url

/-- `ensure_safe_url`, up to the mark. -/
def safeUrl (policy : FetchPolicy) (url : Text) : Except Raised Text :=
  (splitUrl web url).bind fun parts =>
    if !allowedSchemes.contains parts.scheme then
      .error (.fetch (.unsafeUrl ("scheme not allowed: ".toList ++
        Text.orElse (some parts.scheme) "(none)".toList)))
    else
      match parts.hostname web.platform.unicode with
      | none => .error (.fetch (.unsafeUrl ("no host in url: ".toList ++ url)))
      | some host =>
          if host.isEmpty then .error (.fetch (.unsafeUrl ("no host in url: ".toList ++ url)))
          else if policy.allowPrivateHosts then .ok url
          else safeAddresses web url host (web.resolver host)

def ensureSafeUrl (policy : FetchPolicy) (url : Text) : Fetch Text := do
  let target ← Dialogue.lift (safeUrl web policy url)
  Fetch.note (.vetted target)
  return target

end LeadPipe
