import LeadPipe.Fetch.Urls

/-!
# Fetching pages

`app/fetch/robots.py` and `client.py`. The calls of a `Fetcher` are programs that ask the network,
so that what they do is known whatever the servers answer, and whatever other calls of the same
`Fetcher` put into its cache meanwhile.
-/

namespace LeadPipe

open Framework Urllib

variable (web : Web) (policy : FetchPolicy)

namespace RobotsRules

def allows (rules : RobotsRules) (url userAgent : Text) : Except Raised Bool :=
  if rules.denyAll then .ok false
  else
    match rules.allowAll, rules.parser with
    | false, some parser => (web.canFetch parser userAgent url).mapError .other
    | _, _ => .ok true

/-- `float(delay) if delay is not None else None`: an integer that rounds beyond the largest double
is an `OverflowError`. -/
def floatDelay : Option Nat → Except Raised (Option Nat)
  | none => .ok none
  | some delay =>
      if delay < Nat.pow 2 1024 - Nat.pow 2 970 then .ok (some delay)
      else .error (.other "int too large to convert to float".toList)

def crawlDelay (rules : RobotsRules) (userAgent : Text) : Except Raised (Option Nat) :=
  match rules.parser with
  | none => .ok none
  | some parser => ((web.robotsDelay parser userAgent).mapError .other).bind floatDelay

theorem crawlDelay_parsed {lines : List Text} {userAgent : Text} {found : Option Nat}
    (h : web.robotsDelay lines userAgent = .ok found) (allowAll denyAll : Bool)
    (fetchedAt : Instant) :
    crawlDelay web ⟨some lines, allowAll, denyAll, fetchedAt⟩ userAgent = floatDelay found := by
  unfold crawlDelay
  dsimp only
  rw [h, Except.mapError, Except.bind]

theorem floatDelay_ok {delay found : Option Nat} (h : floatDelay delay = .ok found) :
    found = delay := by
  cases delay with
  | none => exact (Except.ok.inj h).symm
  | some n =>
      rw [floatDelay] at h
      split at h
      · exact (Except.ok.inj h).symm
      · cases h

theorem floatDelay_error {delay : Option Nat} {e : Raised} (h : floatDelay delay = .error e) :
    ∃ message, e = .other message := by
  cases delay with
  | none => cases h
  | some n =>
      rw [floatDelay] at h
      split at h
      · cases h
      · exact ⟨_, (Except.error.inj h).symm⟩

end RobotsRules

namespace RobotsCache

/-- `_origin` -/
def origin (url : Text) : Except Raised Text := do
  let parts ← splitUrl web url
  return unsplit parts.scheme parts.netloc [] [] []

def robotsUrl (origin : Text) : Text := origin ++ "/robots.txt".toList

/-- `_load`; the fetcher's exceptions are caught, those of the parser are not. -/
def load (fetcher : Text → Fetch (Nat × Text)) (origin : Text) : Fetch RobotsRules := do
  match ← Dialogue.attempt (fetcher (robotsUrl origin)) with
  | .error _ => return ⟨none, false, true, ← Fetch.now⟩
  | .ok (status, body) =>
      if status ≥ 500 then return ⟨none, false, true, ← Fetch.now⟩
      else if status ≥ 400 then return ⟨none, true, false, ← Fetch.now⟩
      else
        let lines := Text.splitlines [] body
        Dialogue.lift ((web.robotsParse lines).mapError .other)
        return ⟨some lines, false, false, ← Fetch.now⟩

def fresh (entry : Option RobotsRules) : Fetch (Option RobotsRules) :=
  match entry with
  | none => return none
  | some rules => do
      let now ← Fetch.now
      return if now - rules.fetchedAt < policy.robotsTtl then some rules else none

def rulesFor (fetcher : Text → Fetch (Nat × Text)) (url : Text) : Fetch RobotsRules := do
  let origin ← Dialogue.lift (origin web url)
  match ← fresh policy (← Fetch.cached origin) with
  | some rules => return rules
  | none =>
      let rules ← load web fetcher origin
      Fetch.remember origin rules
      return rules

end RobotsCache

def redirectStatuses : List Nat := [301, 302, 303, 307, 308]

def retryStatuses : List Nat := [429, 500, 502, 503, 504]

/-- `_host` -/
def hostOf (url : Text) : Except Raised Text := do
  let parts ← splitUrl web url
  return (parts.hostname web.platform.unicode).getD []

def readChunks (url : Text) : List UInt8 → List (List UInt8) → Except Raised (List UInt8)
  | content, [] => .ok content
  | content, chunk :: chunks =>
      if ((content ++ chunk).length : Int) > policy.maxResponseBytes then
        .error (.fetch (.responseTooLarge
          (url ++ " exceeded ".toList ++ Text.ofInt policy.maxResponseBytes ++ " bytes".toList)))
      else readChunks url (content ++ chunk) chunks

/-- A declared length is read before the body. -/
def checkDeclared (url : Text) (headers : Dict Text) : Except Raised Unit :=
  match headers.get "content-length".toList with
  | none => .ok ()
  | some declared =>
      if declared.isEmpty then .ok ()
      else
        match Text.int web.platform.unicode.isSpace web.decimal declared with
        | none => .error (.other ("invalid literal for int() with base 10: ".toList ++ declared))
        | some length =>
            if length > policy.maxResponseBytes then
              .error (.fetch (.responseTooLarge
                (url ++ " declares ".toList ++ declared ++ " bytes".toList)))
            else .ok ()

/-- What `_read` makes of a reply. -/
def readReply (url : Text) : Reply → Except Raised FetchResponse
  | .failed failure => .error failure.raised
  | .answered answer => do
      checkDeclared web policy url answer.headers
      let content ← readChunks policy url [] answer.chunks
      match answer.broken with
      | some failure => throw failure.raised
      | none => return ⟨answer.url, answer.status, content, answer.headers⟩

/-- `_read` -/
def read (purpose : Purpose) (url : Text) (headers : Dict Text) : Fetch FetchResponse := do
  let reply ← Fetch.send purpose url headers
  Dialogue.lift (readReply web policy url reply)

def fetchRobots (url : Text) : Fetch (Nat × Text) := do
  let host ← Dialogue.lift (hostOf web url)
  Fetch.wait host none
  let response ← read web policy .robots url []
  return (response.statusCode, response.text)

def httpStatusError (status : Nat) (url : Text) : Text :=
  "HTTP ".toList ++ Text.ofNat status ++ " for ".toList ++ url

/-- What an attempt comes to: the response, or the reason to try again. -/
def verdict (url : Text) : Except Raised FetchResponse → Except Raised (FetchResponse ⊕ Text)
  | .ok response =>
      if retryStatuses.contains response.statusCode then
        .ok (.inr (httpStatusError response.statusCode url))
      else .ok (.inl response)
  | .error (.transport message) => .ok (.inr message)
  | .error e => .error e

/-- `_backoff`, but for the time it comes to: `2**attempt` is made a float. -/
def backoff (attempt : Nat) : Except Raised Unit :=
  if attempt < 1024 then .ok () else .error (.other "int too large to convert to float".toList)

def pause (left attempt : Nat) : Fetch Unit :=
  if 0 < left then do
    Dialogue.lift (backoff attempt)
    Fetch.sleep attempt
  else return ()

/-- `_request`: the attempts that are left, how many there were, and what the last one failed
with. -/
def request (url : Text) (headers : Dict Text) (crawlDelay : Option Nat) :
    Nat → Nat → Option Text → Fetch FetchResponse
  | 0, _, last => .raise (.fetch (.fetchError
      ("giving up on ".toList ++ url ++ ": ".toList ++ last.getD "None".toList)))
  | left + 1, attempt, _ => do
      let host ← Dialogue.lift (hostOf web url)
      Fetch.wait host crawlDelay
      let tried ← Dialogue.attempt (read web policy .page url headers)
      match ← Dialogue.lift (verdict url tried) with
      | .inl response => return response
      | .inr last => do
          pause left attempt
          request url headers crawlDelay left (attempt + 1) (some last)

def FetchPolicy.attempts (policy : FetchPolicy) : Nat := (policy.retries + 1).toNat

def checkRobots (url : Text) : Fetch (Option Nat) := do
  if !policy.respectRobots then return none
  let rules ← RobotsCache.rulesFor web policy (fetchRobots web policy) url
  Fetch.note (.rules url rules)
  let allowed ← Dialogue.lift (rules.allows web url policy.userAgent)
  if !allowed then
    .raise (.fetch (.robotsDisallowed ("robots.txt disallows ".toList ++ url)))
  else Dialogue.lift (rules.crawlDelay web policy.userAgent)

/-- One turn of the redirect loop: the response, or where it leads. -/
def hop (headers : Dict Text) (current : Text) (crawlDelay : Option Nat)
    (follow : Text → Fetch FetchResponse) : Fetch FetchResponse := do
  let response ← request web policy current headers crawlDelay policy.attempts 0 none
  if !redirectStatuses.contains response.statusCode then return response
  let location := (response.headers.get "location".toList).getD []
  if location.isEmpty then return response
  else follow location

/-- `_get_with_redirects`, by the redirects that are left. -/
def getWithRedirects (url : Text) (headers : Dict Text) :
    Nat → Text → Option Nat → Fetch FetchResponse
  | 0, current, crawlDelay =>
      hop web policy headers current crawlDelay fun _ =>
        .raise (.fetch (.tooManyRedirects ("more than ".toList ++
          Text.ofInt policy.maxRedirects ++ " redirects from ".toList ++ url)))
  | left + 1, current, crawlDelay =>
      hop web policy headers current crawlDelay fun location => do
        -- every hop is re-validated: a safe url can redirect to an unsafe one
        let joined ← Dialogue.lift (joinUrl web current location)
        let next ← ensureSafeUrl web policy joined
        let crawlDelay ← checkRobots web policy next
        getWithRedirects url headers left next crawlDelay

/-- `Fetcher.get` -/
@[irreducible] def Fetcher.get (url : Text) (headers : Dict Text) : Fetch FetchResponse := do
  let target ← ensureSafeUrl web policy url
  let crawlDelay ← checkRobots web policy target
  getWithRedirects web policy target headers policy.maxRedirects.toNat target crawlDelay

end LeadPipe
