import LeadPipe.Fetch.Client

/-!
# The runs of a fetch

What holds of every request while a page is fetched, and of every exception that ends it. One
specification for each function of the client; the loops are inductions over the attempts and the
redirects that are left.
-/

namespace LeadPipe

open Framework Urllib

abbrev Trace := List (Event Call.Answer)

def marked (n : Note) : Event Call.Answer := ⟨.note n, ()⟩

def exchanged (purpose : Purpose) (url : Text) (headers : Dict Text) (reply : Reply) :
    Event Call.Answer :=
  ⟨.request purpose url headers, reply⟩

def isPageRequest (e : Event Call.Answer) : Bool :=
  match e.call with
  | .request .page _ _ => true
  | _ => false

def pageRequests (h : Trace) : Nat := h.countP isPageRequest

namespace Answer

def location (a : Answer) : Text := (a.headers.get "location".toList).getD []

def redirects (a : Answer) : Bool := redirectStatuses.contains a.status && !a.location.isEmpty

end Answer

variable (web : Web) (policy : FetchPolicy)

/-- `ensure_safe_url` returned the address. -/
def Vetted (h : Trace) (url : Text) : Prop :=
  marked (.vetted url) ∈ h ∧ safeUrl web policy url = .ok url

/-- The rules that `rules_for` returned for the address allow it. -/
def Allowed (h : Trace) (url : Text) : Prop :=
  policy.respectRobots = true → ∃ rules, marked (.rules url rules) ∈ h ∧
    rules.allows web url policy.userAgent = .ok true

def LedTo (h : Trace) (current url : Text) : Prop :=
  ∃ headers answer, exchanged .page current headers (.answered answer) ∈ h ∧
    answer.redirects = true ∧ joinUrl web current answer.location = .ok url

/-- What may be requested: once it may be, always, and what it redirects to as well. -/
structure Reach (may : Trace → Text → Prop) : Prop where
  later : ∀ {h h' url}, h <+: h' → may h url → may h' url
  led : ∀ {h current url}, may h current → LedTo web h current url → may h url

/-- What is true of a request when it is made. -/
structure Sanctioned (headers : Dict Text) (may : Trace → Text → Prop) (h : Trace)
    (e : Event Call.Answer) : Prop where
  page : ∀ url hdrs, e.call = .request .page url hdrs →
    Vetted web policy h url ∧ Allowed web policy h url ∧ hdrs = headers ∧ may h url
  robots : ∀ url hdrs, e.call = .request .robots url hdrs →
    hdrs = [] ∧ ∃ target o, Vetted web policy h target ∧
      RobotsCache.origin web target = .ok o ∧ url = RobotsCache.robotsUrl o

/-- What `robots.txt` was answered with. -/
def RobotsRead (h : Trace) (status : Nat) (body : Text) : Prop :=
  ∃ url answer response, exchanged .robots url [] (.answered answer) ∈ h ∧
    readReply web policy url (.answered answer) = .ok response ∧
      status = response.statusCode ∧ body = response.text

def PageRead (h : Trace) (url : Text) (headers : Dict Text) (response : FetchResponse) : Prop :=
  ∃ answer, exchanged .page url headers (.answered answer) ∈ h ∧
    readReply web policy url (.answered answer) = .ok response

/-- The address splits, and looking its host up raises nothing but an `OSError`. -/
def Readable (url : Text) : Prop :=
  ∃ parts, urlsplit web.platform.unicode web.platform.isIPv6 url = some parts ∧
    (allowedSchemes.contains parts.scheme = true → policy.allowPrivateHosts = false →
      ∀ host, parts.hostname web.platform.unicode = some host →
        ∀ message, web.resolver host ≠ .raises message)

/-- The libraries raise only what the fetcher expects of them, and no delay is too large. -/
structure Orderly (h : Trace) : Prop where
  retries : policy.retries ≤ 1024
  client : ∀ url headers message, exchanged .page url headers (.failed (.other message)) ∉ h
  lengths : ∀ url headers answer, exchanged .page url headers (.answered answer) ∈ h →
    ∀ declared, answer.headers.get "content-length".toList = some declared → declared ≠ [] →
      Text.int web.platform.unicode.isSpace web.decimal declared ≠ none
  bodies : ∀ url headers answer, exchanged .page url headers (.answered answer) ∈ h →
    ∀ message, answer.broken ≠ some (.other message)
  redirects : ∀ url headers answer, exchanged .page url headers (.answered answer) ∈ h →
    answer.redirects = true → ∃ target,
      urljoin web.platform.unicode web.platform.isIPv6 url answer.location = some target ∧
        Readable web policy target
  robots : ∀ url headers answer response, exchanged .robots url headers (.answered answer) ∈ h →
    readReply web policy url (.answered answer) = .ok response → response.statusCode < 400 →
      web.robotsParse (Text.splitlines [] response.text) = .ok ()
  rules : ∀ url rules, marked (.rules url rules) ∈ h →
    (∃ allowed, rules.allows web url policy.userAgent = .ok allowed) ∧
      ∃ delay, rules.crawlDelay web policy.userAgent = .ok delay

/-- In an orderly run the exception is a `FetchError`. -/
def Blamed (h : Trace) (e : Raised) : Prop := Orderly web policy h → ∃ f, e = .fetch f

/-- A page read in an orderly run fails with a `FetchError` or a transport error. -/
def Caught (h : Trace) (e : Raised) : Prop :=
  Orderly web policy h → (∃ f, e = .fetch f) ∨ ∃ message, e = .transport message

/-- Where a request may go: the scheme is allowed, and the addresses of the host are public unless
private ones are allowed. -/
def SafeParts (parts : SplitResult) : Prop :=
  allowedSchemes.contains parts.scheme = true ∧
    ∃ host, parts.hostname web.platform.unicode = some host ∧ host ≠ [] ∧
      (policy.allowPrivateHosts = true ∨
        ∃ addresses, web.resolver host = .addresses addresses ∧ addresses ≠ [] ∧
          ∀ address ∈ addresses, isPublicAddress web address = true)

variable {web policy} {headers : Dict Text} {may : Trace → Text → Prop} {h h' : Trace}
  {url : Text}

theorem Vetted.later (hv : Vetted web policy h url) (hh : h <+: h') : Vetted web policy h' url :=
  ⟨hh.subset hv.1, hv.2⟩

theorem Allowed.later (hp : Allowed web policy h url) (hh : h <+: h') :
    Allowed web policy h' url := by
  intro hrespect
  obtain ⟨rules, hmem, hallows⟩ := hp hrespect
  exact ⟨rules, hh.subset hmem, hallows⟩

theorem LedTo.later {current : Text} (hl : LedTo web h current url) (hh : h <+: h') :
    LedTo web h' current url := by
  obtain ⟨headers, answer, hmem, hanswer⟩ := hl
  exact ⟨headers, answer, hh.subset hmem, hanswer⟩

theorem Orderly.within (ho : Orderly web policy h') (hh : h ⊆ h') : Orderly web policy h where
  retries := ho.retries
  client url headers message hmem := ho.client url headers message (hh hmem)
  lengths url headers answer hmem := ho.lengths url headers answer (hh hmem)
  bodies url headers answer hmem := ho.bodies url headers answer (hh hmem)
  redirects url headers answer hmem := ho.redirects url headers answer (hh hmem)
  robots url headers answer response hmem := ho.robots url headers answer response (hh hmem)
  rules url rules hmem := ho.rules url rules (hh hmem)

theorem Blamed.of_fetch (f : FetchError) : Blamed web policy h (.fetch f) := fun _ => ⟨f, rfl⟩

theorem Sanctioned.quiet {e : Event Call.Answer}
    (hq : ∀ purpose url hdrs, e.call ≠ .request purpose url hdrs) :
    Sanctioned web policy headers may h e :=
  ⟨fun url hdrs hcall => absurd hcall (hq _ url hdrs),
    fun url hdrs hcall => absurd hcall (hq _ url hdrs)⟩

theorem splitUrl_ok {parts : SplitResult} :
    splitUrl web url = .ok parts ↔
      urlsplit web.platform.unicode web.platform.isIPv6 url = some parts := by
  unfold splitUrl
  cases urlsplit web.platform.unicode web.platform.isIPv6 url with
  | none => simp
  | some r => simp

theorem joinUrl_ok {base joined : Text} :
    joinUrl web base url = .ok joined ↔
      urljoin web.platform.unicode web.platform.isIPv6 base url = some joined := by
  unfold joinUrl
  cases urljoin web.platform.unicode web.platform.isIPv6 base url with
  | none => simp
  | some r => simp

theorem safeAddresses_ok {host target : Text} {found : Resolution} :
    safeAddresses web url host found = .ok target ↔
      target = url ∧ ∃ addresses, found = .addresses addresses ∧ addresses ≠ [] ∧
        ∀ address ∈ addresses, isPublicAddress web address = true := by
  cases found with
  | raises message => simp [safeAddresses]
  | osError => simp [safeAddresses]
  | addresses addresses =>
      by_cases hempty : addresses = []
      · simp [safeAddresses, hempty]
      · cases hfound : addresses.find? fun address => !isPublicAddress web address with
        | some blocked =>
            have hblocked : isPublicAddress web blocked = false := by
              simpa using List.find?_some hfound
            have hmem := List.mem_of_find?_eq_some hfound
            simp only [safeAddresses, hfound, List.isEmpty_iff, hempty, if_false]
            refine iff_of_false (by simp) ?_
            rintro ⟨-, found, hsame, -, hpublic⟩
            obtain rfl := Resolution.addresses.inj hsame
            simp [hpublic blocked hmem] at hblocked
        | none =>
            have hpublic : ∀ address ∈ addresses, isPublicAddress web address = true := by
              simpa using hfound
            simp only [safeAddresses, hfound, List.isEmpty_iff, hempty, if_false]
            constructor
            · intro hs
              exact ⟨(Except.ok.inj hs).symm, addresses, rfl, hempty, hpublic⟩
            · rintro ⟨rfl, -⟩
              rfl

theorem safeAddresses_error {host : Text} {found : Resolution} {e : Raised}
    (hs : safeAddresses web url host found = .error e) (hr : ∀ message, found ≠ .raises message) :
    ∃ f, e = .fetch f := by
  unfold safeAddresses at hs
  split at hs
  · rename_i message
    exact absurd rfl (hr message)
  · exact ⟨_, (Except.error.inj hs).symm⟩
  · split at hs
    · exact ⟨_, (Except.error.inj hs).symm⟩
    · split at hs
      · exact ⟨_, (Except.error.inj hs).symm⟩
      · cases hs

theorem safeUrl_ok {target : Text} :
    safeUrl web policy url = .ok target ↔
      target = url ∧ ∃ parts, splitUrl web url = .ok parts ∧ SafeParts web policy parts := by
  unfold safeUrl SafeParts
  cases splitUrl web url with
  | error e => simp [Except.bind]
  | ok parts =>
      simp only [Except.bind, Except.ok.injEq, exists_eq_left']
      generalize allowedSchemes.contains parts.scheme = allowed
      cases allowed with
      | false => simp
      | true =>
          cases parts.hostname web.platform.unicode with
          | none => simp
          | some host =>
              by_cases hempty : host = []
              · simp [hempty]
              · cases policy.allowPrivateHosts with
                | true => simpa [hempty] using eq_comm
                | false => simp [hempty, safeAddresses_ok]

theorem safeUrl_error {e : Raised} (hs : safeUrl web policy url = .error e)
    (hr : Readable web policy url) : ∃ f, e = .fetch f := by
  obtain ⟨parts, hsplit, hresolver⟩ := hr
  unfold safeUrl at hs
  rw [splitUrl_ok.mpr hsplit] at hs
  change (if _ then _ else _) = _ at hs
  split at hs
  · exact ⟨_, (Except.error.inj hs).symm⟩
  · rename_i hscheme
    cases hhost : parts.hostname web.platform.unicode with
    | none =>
        rw [hhost] at hs
        exact ⟨_, (Except.error.inj hs).symm⟩
    | some host =>
        rw [hhost] at hs
        dsimp only at hs
        split at hs
        · exact ⟨_, (Except.error.inj hs).symm⟩
        · split at hs
          · cases hs
          · rename_i hprivate
            apply safeAddresses_error hs
            exact hresolver (by simpa using hscheme) (by simpa using hprivate) host hhost

theorem pageRequests_append (h : Trace) (e : Event Call.Answer) :
    pageRequests (h ++ [e]) = pageRequests h + if isPageRequest e then 1 else 0 := by
  unfold pageRequests
  rw [List.countP_append, List.countP_singleton]

theorem pageRequests_quiet {c : Call} (hq : ∀ purpose url hdrs, c ≠ .request purpose url hdrs)
    (h : Trace) (a : c.Answer) : pageRequests (h ++ [⟨c, a⟩]) = pageRequests h := by
  have hpage : isPageRequest ⟨c, a⟩ = false := by
    unfold isPageRequest
    dsimp only
    split
    · rename_i url hdrs
      exact absurd rfl (hq .page url hdrs)
    · rfl
  rw [pageRequests_append, hpage]
  rfl

theorem quiet_ensures {α : Type} {c : Call} {f : c.Answer → Fetch α}
    {post : Trace → Except Raised α → Prop}
    (hq : ∀ purpose url hdrs, c ≠ .request purpose url hdrs)
    (hf : ∀ a, pageRequests (h ++ [⟨c, a⟩]) = pageRequests h →
      Dialogue.Ensures (Sanctioned web policy headers may) post (f a) (h ++ [⟨c, a⟩])) :
    Dialogue.Ensures (Sanctioned web policy headers may) post (Dialogue.ask c >>= f) h :=
  fun a => ⟨Sanctioned.quiet hq, hf a (pageRequests_quiet hq h a)⟩

theorem ensureSafeUrl_ensures (url : Text) :
    Dialogue.Ensures (Sanctioned web policy headers may)
      (fun h' out => pageRequests h' = pageRequests h ∧
        Dialogue.Outcome (fun target => target = url ∧ Vetted web policy h' url)
          (fun e => Readable web policy url → ∃ f, e = .fetch f) out)
      (ensureSafeUrl web policy url) h := by
  unfold ensureSafeUrl
  apply Dialogue.Ensures.lift_bind
  cases hs : safeUrl web policy url with
  | error e => exact ⟨rfl, safeUrl_error hs⟩
  | ok target =>
      obtain ⟨rfl, -⟩ := safeUrl_ok.mp hs
      apply quiet_ensures (by simp)
      rintro ⟨⟩ hcount
      exact ⟨hcount, rfl, by simp [marked], hs⟩

theorem read_robots_ensures {target o : Text} (hv : Vetted web policy h target)
    (ho : RobotsCache.origin web target = .ok o) :
    Dialogue.Ensures (Sanctioned web policy headers may)
      (fun h' out => pageRequests h' = pageRequests h ∧
        Dialogue.Outcome (fun r => RobotsRead web policy h' r.statusCode r.text) (fun _ => True)
          out)
      (read web policy .robots (RobotsCache.robotsUrl o) []) h := by
  unfold read
  apply Dialogue.Ensures.bind
  apply Dialogue.Ensures.ask
  intro reply
  refine ⟨⟨by simp, ?_⟩, ?_⟩
  · rintro url hdrs ⟨⟩
    exact ⟨rfl, target, o, hv, ho, rfl⟩
  · apply Dialogue.Ensures.lift
    refine ⟨pageRequests_append _ _, ?_⟩
    cases hr : readReply web policy (RobotsCache.robotsUrl o) reply with
    | error e => trivial
    | ok response =>
        cases reply with
        | failed failure => cases hr
        | answered answer =>
            exact ⟨_, answer, response, by simp [exchanged], hr, rfl, rfl⟩

theorem fetchRobots_ensures {target o : Text} (hv : Vetted web policy h target)
    (ho : RobotsCache.origin web target = .ok o) :
    Dialogue.Ensures (Sanctioned web policy headers may)
      (fun h' out => pageRequests h' = pageRequests h ∧
        Dialogue.Outcome (fun r => RobotsRead web policy h' r.1 r.2) (fun _ => True) out)
      (fetchRobots web policy (RobotsCache.robotsUrl o)) h := by
  unfold fetchRobots
  apply Dialogue.Ensures.lift_bind
  cases hostOf web (RobotsCache.robotsUrl o) with
  | error e => exact ⟨rfl, trivial⟩
  | ok host =>
      apply quiet_ensures (by simp)
      intro u hcount
      apply (read_robots_ensures (hv.later (List.prefix_append h _)) ho).seq
      · intro h₂ response _ hread
        exact ⟨hread.1.trans hcount, hread.2⟩
      · intro h₂ e _ hread
        exact ⟨hread.1.trans hcount, trivial⟩

theorem now_ensures {α : Type} {f : Instant → α} {good : Trace → α → Prop}
    {bad : Trace → Raised → Prop}
    (hgood : ∀ h' now, good h' (f now)) :
    Dialogue.Ensures (Sanctioned web policy headers may)
      (fun h' out => pageRequests h' = pageRequests h ∧ Dialogue.Outcome (good h') (bad h') out)
      (Fetch.now >>= fun now => pure (f now)) h := by
  apply quiet_ensures (by simp)
  intro now hcount
  exact ⟨hcount, hgood _ now⟩

theorem load_ensures {target o : Text} (hv : Vetted web policy h target)
    (ho : RobotsCache.origin web target = .ok o) :
    Dialogue.Ensures (Sanctioned web policy headers may)
      (fun h' out => pageRequests h' = pageRequests h ∧
        Dialogue.Outcome (fun _ => True) (Blamed web policy h') out)
      (RobotsCache.load web (fetchRobots web policy) o) h := by
  unfold RobotsCache.load
  apply (fetchRobots_ensures hv ho).attempt.seq
  · rintro h₁ - - ⟨e | ⟨status, body⟩, ⟨⟩, hcount, hread⟩
    · dsimp only
      rw [← hcount]
      exact now_ensures fun _ _ => trivial
    · dsimp only
      rw [← hcount]
      split
      · exact now_ensures fun _ _ => trivial
      · split
        · exact now_ensures fun _ _ => trivial
        · rename_i hstatus
          apply Dialogue.Ensures.lift_bind
          cases hparse : web.robotsParse (Text.splitlines [] body) with
          | ok u => exact now_ensures fun _ _ => trivial
          | error message =>
              refine ⟨rfl, fun horderly => ?_⟩
              obtain ⟨url, answer, response, hmem, hresponse, rfl, rfl⟩ := hread
              have hok := horderly.robots url [] answer response hmem hresponse (by omega)
              rw [hok] at hparse
              cases hparse
  · rintro h' e - ⟨out, ⟨⟩, -⟩

theorem origin_ok (hs : safeUrl web policy url = .ok url) :
    ∃ o, RobotsCache.origin web url = .ok o := by
  obtain ⟨-, parts, hsplit, -⟩ := safeUrl_ok.mp hs
  refine ⟨unsplit parts.scheme parts.netloc [] [] [], ?_⟩
  unfold RobotsCache.origin
  rw [hsplit]
  rfl

theorem fresh_ensures (entry : Option RobotsRules) :
    Dialogue.Ensures (Sanctioned web policy headers may)
      (fun h' out => pageRequests h' = pageRequests h ∧
        Dialogue.Outcome (fun _ => True) (fun _ => False) out)
      (RobotsCache.fresh policy entry) h := by
  cases entry with
  | none => exact ⟨rfl, trivial⟩
  | some rules => exact now_ensures fun _ _ => trivial

theorem rulesFor_ensures (hv : Vetted web policy h url) :
    Dialogue.Ensures (Sanctioned web policy headers may)
      (fun h' out => pageRequests h' = pageRequests h ∧
        Dialogue.Outcome (fun _ => True) (Blamed web policy h') out)
      (RobotsCache.rulesFor web policy (fetchRobots web policy) url) h := by
  obtain ⟨o, ho⟩ := origin_ok hv.2
  unfold RobotsCache.rulesFor
  rw [ho]
  apply Dialogue.Ensures.lift_bind
  apply quiet_ensures (by simp)
  intro entry hcount
  apply (fresh_ensures entry).seq
  · rintro h₂ (- | rules) hlonger ⟨hcount₂, -⟩
    · have hlater : h <+: h₂ := (List.prefix_append h _).trans hlonger
      apply (load_ensures (hv.later hlater) ho).seq
      · rintro h₃ rules - ⟨hcount₃, -⟩
        apply quiet_ensures (by simp)
        intro u hcount₄
        exact ⟨hcount₄.trans (hcount₃.trans (hcount₂.trans hcount)), trivial⟩
      · rintro h₃ e - ⟨hcount₃, hblamed⟩
        exact ⟨hcount₃.trans (hcount₂.trans hcount), hblamed⟩
    · exact ⟨hcount₂.trans hcount, trivial⟩
  · rintro h₂ e - ⟨-, ⟨⟩⟩

theorem checkRobots_ensures (hv : Vetted web policy h url) :
    Dialogue.Ensures (Sanctioned web policy headers may)
      (fun h' out => pageRequests h' = pageRequests h ∧
        Dialogue.Outcome (fun _ => Allowed web policy h' url) (Blamed web policy h') out)
      (checkRobots web policy url) h := by
  unfold checkRobots
  cases hrespect : policy.respectRobots with
  | false =>
      refine ⟨rfl, fun hr => ?_⟩
      rw [hrespect] at hr
      cases hr
  | true =>
      apply (rulesFor_ensures hv).seq
      · rintro h₁ rules hlonger ⟨hcount, -⟩
        apply quiet_ensures (by simp)
        intro u hcount'
        have hmem : marked (.rules url rules) ∈ h₁ ++ [⟨Call.note (.rules url rules), ()⟩] := by
          simp [marked]
        apply Dialogue.Ensures.lift_bind
        cases hallows : rules.allows web url policy.userAgent with
        | error e =>
            refine ⟨hcount'.trans hcount, fun horderly => ?_⟩
            obtain ⟨⟨allowed, hok⟩, -⟩ := horderly.rules url rules hmem
            rw [hok] at hallows
            cases hallows
        | ok allowed =>
            cases allowed with
            | false => exact ⟨hcount'.trans hcount, Blamed.of_fetch _⟩
            | true =>
                apply Dialogue.Ensures.lift
                refine ⟨hcount'.trans hcount, ?_⟩
                cases hdelay : rules.crawlDelay web policy.userAgent with
                | ok delay => exact fun _ => ⟨rules, hmem, hallows⟩
                | error e =>
                    intro horderly
                    obtain ⟨-, delay, hok⟩ := horderly.rules url rules hmem
                    rw [hok] at hdelay
                    cases hdelay
      · rintro h₁ e - ⟨hcount, hblamed⟩
        exact ⟨hcount, hblamed⟩

theorem readReply_cases (web : Web) (policy : FetchPolicy) (url : Text) (answer : Answer) :
    (∃ e, checkDeclared web policy url answer.headers = .error e ∧
      readReply web policy url (.answered answer) = .error e) ∨
      (∃ e, readChunks policy url [] answer.chunks = .error e ∧
        readReply web policy url (.answered answer) = .error e) ∨
        (∃ failure, answer.broken = some failure ∧
          readReply web policy url (.answered answer) = .error failure.raised) ∨
          ∃ content, readReply web policy url (.answered answer) =
            .ok ⟨answer.url, answer.status, content, answer.headers⟩ := by
  unfold readReply
  dsimp only
  cases hdeclared : checkDeclared web policy url answer.headers with
  | error e => exact .inl ⟨e, rfl, rfl⟩
  | ok u =>
      cases hchunks : readChunks policy url [] answer.chunks with
      | error e => exact .inr (.inl ⟨e, rfl, rfl⟩)
      | ok content =>
          cases hbroken : answer.broken with
          | some failure => exact .inr (.inr (.inl ⟨failure, rfl, rfl⟩))
          | none => exact .inr (.inr (.inr ⟨content, rfl⟩))

theorem readReply_answered {answer : Answer} {response : FetchResponse}
    (hr : readReply web policy url (.answered answer) = .ok response) :
    response.statusCode = answer.status ∧ response.headers = answer.headers := by
  rcases readReply_cases web policy url answer with
    ⟨e, -, heq⟩ | ⟨e, -, heq⟩ | ⟨failure, -, heq⟩ | ⟨content, heq⟩
  all_goals
    rw [heq] at hr
    cases hr
  exact ⟨rfl, rfl⟩

theorem checkDeclared_error {e : Raised} {answer : Answer}
    (hmem : exchanged .page url headers (.answered answer) ∈ h)
    (hr : checkDeclared web policy url answer.headers = .error e) : Blamed web policy h e := by
  intro horderly
  unfold checkDeclared at hr
  split at hr
  · cases hr
  · rename_i declared hdeclared
    split at hr
    · cases hr
    · rename_i hne
      split at hr
      · rename_i hint
        exact absurd hint
          (horderly.lengths url headers answer hmem declared hdeclared (by simpa using hne))
      · split at hr
        · exact ⟨_, (Except.error.inj hr).symm⟩
        · cases hr

theorem readChunks_error {e : Raised} {content : List UInt8} {chunks : List (List UInt8)}
    (hr : readChunks policy url content chunks = .error e) : ∃ f, e = .fetch f := by
  induction chunks generalizing content with
  | nil => cases hr
  | cons chunk chunks ih =>
      unfold readChunks at hr
      split at hr
      · exact ⟨_, (Except.error.inj hr).symm⟩
      · exact ih hr

theorem readReply_error {reply : Reply} {e : Raised}
    (hmem : exchanged .page url headers reply ∈ h)
    (hr : readReply web policy url reply = .error e) : Caught web policy h e := by
  intro horderly
  cases reply with
  | failed failure =>
      cases failure with
      | transport m => exact .inr ⟨m, (Except.error.inj hr).symm⟩
      | other m => exact absurd hmem (horderly.client url headers m)
  | answered answer =>
      rcases readReply_cases web policy url answer with
        ⟨e', hbad, heq⟩ | ⟨e', hbad, heq⟩ | ⟨failure, hbad, heq⟩ | ⟨content, heq⟩
      all_goals
        rw [heq] at hr
        cases hr
      · exact .inl (checkDeclared_error hmem hbad horderly)
      · exact .inl (readChunks_error hbad)
      · cases failure with
        | transport m => exact .inr ⟨m, rfl⟩
        | other m => exact absurd hbad (horderly.bodies url headers answer hmem m)

theorem read_page_ensures (hv : Vetted web policy h url) (hp : Allowed web policy h url)
    (hm : may h url) :
    Dialogue.Ensures (Sanctioned web policy headers may)
      (fun h' out => pageRequests h' = pageRequests h + 1 ∧
        Dialogue.Outcome (PageRead web policy h' url headers) (Caught web policy h') out)
      (read web policy .page url headers) h := by
  unfold read
  apply Dialogue.Ensures.bind
  apply Dialogue.Ensures.ask
  intro reply
  refine ⟨⟨?_, by simp⟩, ?_⟩
  · rintro u hdrs ⟨⟩
    exact ⟨hv, hp, rfl, hm⟩
  · apply Dialogue.Ensures.lift
    have hmem : exchanged .page url headers reply ∈
        h ++ [⟨Call.request .page url headers, reply⟩] := by simp [exchanged]
    refine ⟨pageRequests_append _ _, ?_⟩
    cases hr : readReply web policy url reply with
    | error e => exact readReply_error hmem hr
    | ok response =>
        cases reply with
        | failed failure => cases hr
        | answered answer => exact ⟨answer, hmem, hr⟩

theorem hostOf_ok (hs : safeUrl web policy url = .ok url) : ∃ host, hostOf web url = .ok host := by
  obtain ⟨-, parts, hsplit, -⟩ := safeUrl_ok.mp hs
  refine ⟨(parts.hostname web.platform.unicode).getD [], ?_⟩
  unfold hostOf
  rw [hsplit]
  rfl

theorem pause_ensures (left attempt : Nat) :
    Dialogue.Ensures (Sanctioned web policy headers may)
      (fun h' out => pageRequests h' = pageRequests h ∧
        Dialogue.Outcome (fun _ => True) (fun _ => 0 < left ∧ 1024 ≤ attempt) out)
      (pause left attempt) h := by
  unfold pause
  split
  · rename_i hleft
    apply Dialogue.Ensures.lift_bind
    unfold backoff
    by_cases hfew : attempt < 1024
    · rw [if_pos hfew]
      apply Dialogue.Ensures.ask
      intro u
      exact ⟨Sanctioned.quiet (by simp), pageRequests_quiet (by simp) h u, trivial⟩
    · rw [if_neg hfew]
      exact ⟨rfl, hleft, by omega⟩
  · exact ⟨rfl, trivial⟩

theorem verdict_cases (url : Text) (tried : Except Raised FetchResponse) :
    (∃ response, tried = .ok response ∧ verdict url tried = .ok (.inl response)) ∨
      (∃ last, verdict url tried = .ok (.inr last)) ∨
        ∃ e, tried = .error e ∧ verdict url tried = .error e ∧ ∀ m, e ≠ .transport m := by
  cases tried with
  | ok response =>
      unfold verdict
      dsimp only
      split
      · exact .inr (.inl ⟨_, rfl⟩)
      · exact .inl ⟨response, rfl, rfl⟩
  | error e =>
      cases e with
      | transport m => exact .inr (.inl ⟨m, rfl⟩)
      | fetch f => exact .inr (.inr ⟨_, rfl, rfl, by simp⟩)
      | source m => exact .inr (.inr ⟨_, rfl, rfl, by simp⟩)
      | other m => exact .inr (.inr ⟨_, rfl, rfl, by simp⟩)

theorem request_ensures (hmay : Reach web may) (hv : Vetted web policy h url)
    (hp : Allowed web policy h url) (hm : may h url) (delay : Option Nat) {left attempt : Nat}
    (hleft : attempt + left = policy.attempts) (last : Option Text) :
    Dialogue.Ensures (Sanctioned web policy headers may)
      (fun h' out => pageRequests h' ≤ pageRequests h + left ∧
        Dialogue.Outcome (PageRead web policy h' url headers) (Blamed web policy h') out)
      (request web policy url headers delay left attempt last) h := by
  induction left generalizing h attempt last with
  | zero => exact ⟨le_rfl, Blamed.of_fetch _⟩
  | succ left ih =>
      obtain ⟨host, hhost⟩ := hostOf_ok hv.2
      unfold request
      rw [hhost]
      apply Dialogue.Ensures.lift_bind
      apply quiet_ensures (by simp)
      intro u hcount
      have hlonger := List.prefix_append h [(⟨Call.wait host delay, u⟩ : Event Call.Answer)]
      apply (read_page_ensures (hv.later hlonger) (hp.later hlonger)
        (hmay.later hlonger hm)).attempt.seq
      · rintro h₂ tried hlonger' ⟨_, ⟨⟩, hcount', htried⟩
        have hone : pageRequests h₂ ≤ pageRequests h + (left + 1) := by omega
        apply Dialogue.Ensures.lift_bind
        rcases verdict_cases url tried with ⟨response, rfl, hverdict⟩ | ⟨last, hverdict⟩ |
          ⟨e, rfl, hverdict, hplain⟩
        · rw [hverdict]
          exact ⟨hone, htried⟩
        · rw [hverdict]
          have hlater := hlonger.trans hlonger'
          apply (pause_ensures left attempt).seq
          · rintro h₃ - hlonger₃ ⟨hcount₃, -⟩
            have hlater' := hlater.trans hlonger₃
            apply (ih (hv.later hlater') (hp.later hlater') (hmay.later hlater' hm) (by omega)
              (some last)).mono (fun _ _ _ hok => hok)
            rintro h₄ out - ⟨hcount₄, hout⟩
            exact ⟨by omega, hout⟩
          · rintro h₃ e - ⟨hcount₃, hpositive, hmany⟩
            refine ⟨by omega, fun horderly => ?_⟩
            have hretries := horderly.retries
            unfold FetchPolicy.attempts at hleft
            omega
        · rw [hverdict]
          refine ⟨hone, fun horderly => ?_⟩
          rcases htried horderly with hfetch | ⟨m, rfl⟩
          · exact hfetch
          · exact absurd rfl (hplain m)
      · rintro h₂ e - ⟨out, ⟨⟩, -⟩

/-- Where a page's answer leads, as `hop` reads it off the response. -/
theorem redirect_read {response : FetchResponse} {current : Text}
    (hread : PageRead web policy h current headers response)
    (hstatus : redirectStatuses.contains response.statusCode = true)
    (hlocation : (response.headers.get "location".toList).getD [] ≠ []) :
    ∃ answer, exchanged .page current headers (.answered answer) ∈ h ∧
      answer.redirects = true ∧
        answer.location = (response.headers.get "location".toList).getD [] := by
  obtain ⟨answer, hmem, hanswer⟩ := hread
  obtain ⟨hcode, hheaders⟩ := readReply_answered hanswer
  rw [hcode] at hstatus
  rw [hheaders] at hlocation ⊢
  refine ⟨answer, hmem, ?_, rfl⟩
  have hnonempty : answer.location.isEmpty = false := by
    unfold Answer.location
    simpa using hlocation
  rw [Answer.redirects, hstatus, hnonempty]
  rfl

theorem hop_ensures (hmay : Reach web may) {current : Text} (hv : Vetted web policy h current)
    (hp : Allowed web policy h current) (hm : may h current) (delay : Option Nat)
    {follow : Text → Fetch FetchResponse} {post : Trace → Except Raised FetchResponse → Prop}
    (hdone : ∀ h' out, pageRequests h' ≤ pageRequests h + policy.attempts →
      Dialogue.Outcome (fun _ => True) (Blamed web policy h') out → post h' out)
    (hfollow : ∀ h' answer, h <+: h' → pageRequests h' ≤ pageRequests h + policy.attempts →
      exchanged .page current headers (.answered answer) ∈ h' → answer.redirects = true →
        Dialogue.Ensures (Sanctioned web policy headers may) post (follow answer.location) h') :
    Dialogue.Ensures (Sanctioned web policy headers may) post
      (hop web policy headers current delay follow) h := by
  unfold hop
  apply (request_ensures hmay hv hp hm delay (Nat.zero_add _) none).seq
  · rintro h₁ response hlonger ⟨hcount, hread⟩
    split
    · exact hdone h₁ (.ok response) hcount trivial
    · rename_i hstatus
      dsimp only
      split
      · exact hdone h₁ (.ok response) hcount trivial
      · rename_i hlocation
        obtain ⟨answer, hmem, hredirects, hlocation⟩ :=
          redirect_read hread (by simpa using hstatus) (by simpa using hlocation)
        rw [← hlocation]
        exact hfollow h₁ answer hlonger hcount hmem hredirects
  · rintro h₁ e - ⟨hcount, hblamed⟩
    exact hdone h₁ (.error e) hcount hblamed

theorem getWithRedirects_ensures (hmay : Reach web may) (left : Nat) {current : Text}
    (hv : Vetted web policy h current) (hp : Allowed web policy h current)
    (hm : may h current) (delay : Option Nat) :
    Dialogue.Ensures (Sanctioned web policy headers may)
      (fun h' out => pageRequests h' ≤ pageRequests h + (left + 1) * policy.attempts ∧
        Dialogue.Outcome (fun _ => True) (Blamed web policy h') out)
      (getWithRedirects web policy url headers left current delay) h := by
  induction left generalizing h current delay with
  | zero =>
      unfold getWithRedirects
      apply hop_ensures hmay hv hp hm delay
      · intro h₁ out hcount hout
        exact ⟨by omega, hout⟩
      · rintro h₁ answer - hcount - -
        exact ⟨by omega, Blamed.of_fetch _⟩
  | succ left ih =>
      have hgrow : (left + 1 + 1) * policy.attempts =
          policy.attempts + (left + 1) * policy.attempts := by
        rw [Nat.succ_mul, Nat.add_comm]
      unfold getWithRedirects
      apply hop_ensures hmay hv hp hm delay
      · intro h₁ out hcount hout
        exact ⟨by omega, hout⟩
      · intro h₁ answer hlonger hcount hmem hredirects
        apply Dialogue.Ensures.lift_bind
        cases hjoin : joinUrl web current answer.location with
        | error e =>
            refine ⟨by omega, fun horderly => ?_⟩
            obtain ⟨target, htarget, -⟩ :=
              horderly.redirects current headers answer hmem hredirects
            rw [joinUrl_ok.mpr htarget] at hjoin
            cases hjoin
        | ok joined =>
            have hled : may h₁ joined :=
              hmay.led (hmay.later hlonger hm) ⟨headers, answer, hmem, hredirects, hjoin⟩
            apply (ensureSafeUrl_ensures joined).seq
            · rintro h₂ target hlonger₂ ⟨hcount₂, rfl, hv₂⟩
              apply (checkRobots_ensures hv₂).seq
              · rintro h₃ delay hlonger₃ ⟨hcount₃, hp₃⟩
                apply (ih (hv₂.later hlonger₃) hp₃
                  (hmay.later (hlonger₂.trans hlonger₃) hled) delay).mono (fun _ _ _ hok => hok)
                rintro h₄ out - ⟨hcount₄, hout⟩
                exact ⟨by omega, hout⟩
              · rintro h₃ e - ⟨hcount₃, hblamed⟩
                exact ⟨by omega, hblamed⟩
            · rintro h₂ e hlonger₂ ⟨hcount₂, hfetch⟩
              refine ⟨by omega, fun horderly => ?_⟩
              obtain ⟨target, htarget, hreadable⟩ := horderly.redirects current headers answer
                (hlonger₂.subset hmem) hredirects
              obtain rfl := Option.some.inj ((joinUrl_ok.mp hjoin).symm.trans htarget)
              exact hfetch hreadable

/-- Every request of `Fetcher.get` is sanctioned, there are not too many, and in an orderly run
nothing but a `FetchError` comes out. -/
theorem get_ensures (headers : Dict Text) (h : Trace) (hmay : Reach web may) (hm : may h url) :
    Dialogue.Ensures (Sanctioned web policy headers may)
      (fun h' out => pageRequests h' ≤
          pageRequests h + (policy.maxRedirects.toNat + 1) * policy.attempts ∧
        Dialogue.Outcome (fun _ => True)
          (fun e => Readable web policy url → Blamed web policy h' e) out)
      (Fetcher.get web policy url headers) h := by
  unfold Fetcher.get
  apply (ensureSafeUrl_ensures url).seq
  · rintro h₁ target hlonger ⟨hcount, rfl, hv⟩
    apply (checkRobots_ensures hv).seq
    · rintro h₂ delay hlonger' ⟨hcount', hp⟩
      apply (getWithRedirects_ensures hmay _ (hv.later hlonger') hp
        (hmay.later (hlonger.trans hlonger') hm) delay).mono (fun _ _ _ hok => hok)
      rintro h₃ (e | response) - ⟨hcount₃, hout⟩
      · exact ⟨by omega, fun _ => hout⟩
      · exact ⟨by omega, trivial⟩
    · rintro h₂ e - ⟨hcount', hblamed⟩
      exact ⟨by omega, fun _ => hblamed⟩
  · rintro h₁ e - ⟨hcount, hfetch⟩
    exact ⟨by omega, fun hreadable _ => hfetch hreadable⟩

/-- What the adapters mark in a run. -/
def Call.isAdapters : Call → Bool
  | .note (.listed ..) | .note (.yielded _) => true
  | _ => false

/-- The program leaves the adapters' marks alone. -/
def Unmarked {α : Type} (m : Fetch α) : Prop := Dialogue.Only (fun c => c.isAdapters = false) m

namespace Unmarked

variable {α β : Type}

theorem bind {m : Fetch α} {f : α → Fetch β} (hm : Unmarked m) (hf : ∀ a, Unmarked (f a)) :
    Unmarked (m >>= f) :=
  Dialogue.Only.bind hm hf

theorem call {c : Call} {f : c.Answer → Fetch α} (hc : c.isAdapters = false)
    (hf : ∀ a, Unmarked (f a)) : Unmarked (Dialogue.ask c >>= f) :=
  bind (Dialogue.Only.ask hc) hf

theorem lift (x : Except Raised α) : Unmarked (Dialogue.lift x) := Dialogue.Only.lift x

theorem now (f : Instant → α) : Unmarked (Fetch.now >>= fun now => pure (f now)) :=
  call (by rfl) fun _ => trivial

variable (web : Web) (policy : FetchPolicy)

theorem ensureSafeUrl (url : Text) : Unmarked (LeadPipe.ensureSafeUrl web policy url) := by
  unfold LeadPipe.ensureSafeUrl
  apply (lift _).bind
  intro target
  exact call (by rfl) fun _ => trivial

theorem read (purpose : Purpose) (url : Text) (headers : Dict Text) :
    Unmarked (LeadPipe.read web policy purpose url headers) := by
  unfold LeadPipe.read
  exact call (by rfl) fun reply => lift _

theorem load (origin : Text) :
    Unmarked (RobotsCache.load web (fetchRobots web policy) origin) := by
  unfold RobotsCache.load fetchRobots
  apply bind
  · apply Dialogue.Only.attempt
    apply (lift _).bind
    intro host
    apply call (by rfl)
    intro u
    exact (read web policy _ _ _).bind fun response => trivial
  · intro tried
    cases tried with
    | error e => exact now _
    | ok answer =>
        dsimp only
        split
        · exact now _
        · split
          · exact now _
          · exact (lift _).bind fun u => now _

theorem rulesFor (url : Text) :
    Unmarked (RobotsCache.rulesFor web policy (fetchRobots web policy) url) := by
  unfold RobotsCache.rulesFor
  apply (lift _).bind
  intro origin
  apply call (by rfl)
  intro entry
  apply bind
  · cases entry with
    | none => trivial
    | some rules => exact now _
  · intro found
    cases found with
    | some rules => trivial
    | none =>
        apply (load web policy origin).bind
        intro rules
        exact call (by rfl) fun u => trivial

theorem checkRobots (url : Text) : Unmarked (LeadPipe.checkRobots web policy url) := by
  unfold LeadPipe.checkRobots
  split
  · trivial
  · apply (rulesFor web policy url).bind
    intro rules
    apply call (by rfl)
    intro u
    apply (lift _).bind
    intro allowed
    split
    · trivial
    · exact lift _

theorem pause (left attempt : Nat) : Unmarked (LeadPipe.pause left attempt) := by
  unfold LeadPipe.pause
  split
  · exact (lift _).bind fun u => Dialogue.Only.ask rfl
  · trivial

theorem request (url : Text) (headers : Dict Text) (delay : Option Nat) (left attempt : Nat)
    (last : Option Text) :
    Unmarked (LeadPipe.request web policy url headers delay left attempt last) := by
  induction left generalizing attempt last with
  | zero => trivial
  | succ left ih =>
      unfold LeadPipe.request
      apply (lift _).bind
      intro host
      apply call (by rfl)
      intro u
      apply (Dialogue.Only.attempt (read web policy _ _ _)).bind
      intro tried
      apply (lift _).bind
      intro verdict
      cases verdict with
      | inl response => trivial
      | inr last => exact (pause left attempt).bind fun u => ih (attempt + 1) (some last)

theorem hop (headers : Dict Text) (current : Text) (delay : Option Nat)
    {follow : Text → Fetch FetchResponse} (hfollow : ∀ location, Unmarked (follow location)) :
    Unmarked (LeadPipe.hop web policy headers current delay follow) := by
  unfold LeadPipe.hop
  apply (request web policy current headers delay _ _ _).bind
  intro response
  split
  · trivial
  · dsimp only
    split
    · trivial
    · exact hfollow _

theorem getWithRedirects (url : Text) (headers : Dict Text) (left : Nat) (current : Text)
    (delay : Option Nat) :
    Unmarked (LeadPipe.getWithRedirects web policy url headers left current delay) := by
  induction left generalizing current delay with
  | zero => exact hop web policy headers current delay fun _ => trivial
  | succ left ih =>
      apply hop web policy headers current delay
      intro location
      apply (lift _).bind
      intro joined
      apply (ensureSafeUrl web policy joined).bind
      intro next
      exact (checkRobots web policy next).bind fun delay => ih next delay

theorem get (url : Text) (headers : Dict Text) : Unmarked (Fetcher.get web policy url headers) := by
  unfold Fetcher.get
  apply (ensureSafeUrl web policy url).bind
  intro target
  exact (checkRobots web policy target).bind fun delay =>
    getWithRedirects web policy target headers _ target delay

end Unmarked

end LeadPipe
