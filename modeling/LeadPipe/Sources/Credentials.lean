import LeadPipe.Fetch.Surroundings
import LeadPipe.Sources.Runs

/-!
# Where configured headers go

An adapter sends its configured headers with every page it requests, also with the pages that
redirects, next links and detail links lead to. They stay with the configured origin as long as
these do.
-/

namespace LeadPipe

open Framework Urllib

variable {web : Web} {policy : FetchPolicy}

def defaultPort (scheme : Text) : Option Nat :=
  if scheme = "http".toList then some 80
  else if scheme = "https".toList then some 443
  else none

/-- Scheme, host and port; a port that cannot be read is told by the authority it stands in. -/
def originOf (web : Web) (parts : SplitResult) : Text × Option Text × (Text ⊕ Option Nat) :=
  (parts.scheme, parts.hostname web.platform.unicode,
    match parts.port with
    | none => .inl parts.netloc
    | some port => .inr (port.or (defaultPort parts.scheme)))

def pageOrigin (web : Web) (url : Text) :
    Except Raised (Text × Option Text × (Text ⊕ Option Nat)) :=
  (splitUrl web url).map (originOf web)

def SameOrigin (web : Web) (a b : Text) : Prop := pageOrigin web a = pageOrigin web b

theorem SameOrigin.trans {a b c : Text} (hab : SameOrigin web a b) (hbc : SameOrigin web b c) :
    SameOrigin web a c :=
  Eq.trans hab hbc

/-- Another page number is another page of the same origin. -/
theorem withParam_origin {url param target : Text} {value : Int}
    (h : withParam web url param value = .ok target) : SameOrigin web url target := by
  cases hsplit : splitUrl web url with
  | error e =>
      unfold withParam at h
      rw [hsplit] at h
      cases h
  | ok parts =>
      obtain ⟨parts', hsplit', hscheme, hnetloc⟩ := withParam_ok hsplit h
      have hport : parts'.port = parts.port := by
        unfold SplitResult.port
        rw [hostinfo_congr hnetloc]
      unfold SameOrigin pageOrigin
      rw [hsplit, hsplit']
      change Except.ok _ = Except.ok _
      unfold originOf
      rw [hscheme, hnetloc, hport, hostname_congr hnetloc]

/-- Redirects lead from pages to pages of their origins. -/
def RedirectsHome (web : Web) (h : Trace) : Prop :=
  ∀ current target, LedTo web h current target → SameOrigin web current target

variable {h h' : Trace} {url : Text}

namespace ApiSource

variable (web) (source : ApiSource)

/-- Redirects and next links stay with their origins. -/
structure Home (h : Trace) : Prop where
  redirects : RedirectsHome web h
  links : ∀ url text payload link target, marked (.listed url text) ∈ h →
    web.loads text = .ok payload → source.Link web payload link →
      joinUrl web url link = .ok target → SameOrigin web url target

/-- What may be requested as long as they do. -/
def MayRequest (h : Trace) (target : Text) : Prop :=
  source.Home web h → SameOrigin web source.options.url target

variable {web source}

theorem Home.earlier (ho : source.Home web h') (hh : h <+: h') : source.Home web h where
  redirects current target hl := ho.redirects current target (hl.later hh)
  links url text payload link target hmem := ho.links url text payload link target (hh.subset hmem)

theorem firstUrl_origin (hf : source.firstUrl web = .ok url) :
    SameOrigin web source.options.url url := by
  unfold firstUrl at hf
  split at hf
  · obtain rfl := Except.ok.inj hf
    rfl
  · exact withParam_origin hf

theorem nextUrl_origin (ho : source.Home web h) {text : Text}
    (hlisted : marked (.listed url text) ∈ h) {payload : Json}
    (hloads : web.loads text = .ok payload) {count : Nat} {target : Text}
    (hnext : source.nextUrl web payload url count = .ok (some target)) :
    SameOrigin web url target := by
  rcases nextUrl_cases web source payload url count with
    hnone | ⟨hpath, follow, hdig, hfollow, hlink⟩ | ⟨hpath, hnumber⟩
  · rw [hnone] at hnext
    cases hnext
  · rw [hlink] at hnext
    cases hstr : strOf web follow with
    | error e =>
        rw [hstr] at hnext
        cases hnext
    | ok link =>
        rw [hstr] at hnext
        change (joinUrl web url link).bind _ = _ at hnext
        cases hjoin : joinUrl web url link with
        | error e =>
            rw [hjoin] at hnext
            cases hnext
        | ok joined =>
            rw [hjoin] at hnext
            obtain rfl := Option.some.inj (Except.ok.inj hnext)
            exact ho.links url text payload link joined hlisted hloads
              ⟨hpath, follow, hdig, hfollow, hstr⟩ hjoin
  · rw [hnumber] at hnext
    cases hpage : paramValue web url (source.options.pageParam.getD [])
        source.options.startPage with
    | error e =>
        rw [hpage] at hnext
        cases hnext
    | ok page =>
        rw [hpage] at hnext
        change (withParam web url _ (page + 1)).bind _ = _ at hnext
        cases hparam : withParam web url (source.options.pageParam.getD []) (page + 1) with
        | error e =>
            rw [hparam] at hnext
            cases hnext
        | ok numbered =>
            rw [hparam] at hnext
            obtain rfl := Option.some.inj (Except.ok.inj hnext)
            exact withParam_origin hparam

theorem mayRequest_walk (web : Web) (source : ApiSource) :
    source.Walk web (source.MayRequest web) where
  later hh hm horigin := hm (horigin.earlier hh)
  led hm hl horigin := (hm horigin).trans (horigin.redirects _ _ hl)
  first hf _ := firstUrl_origin hf
  next hm hlisted hloads hnext horigin :=
    (hm horigin).trans (nextUrl_origin horigin hlisted hloads hnext)

end ApiSource

namespace HtmlSource

variable (web) (source : HtmlSource)

/-- Redirects, next links and detail links stay with their origins. -/
structure Home (h : Trace) : Prop where
  redirects : RedirectsHome web h
  links : ∀ url text link target, marked (.listed url text) ∈ h → source.Link web text link →
    joinUrl web url link = .ok target → SameOrigin web url target
  details : ∀ url text node target, marked (.listed url text) ∈ h → source.Item web text node →
    source.detailUrl web node url = .ok (some target) → SameOrigin web url target

/-- What may be requested as long as they do. -/
def MayRequest (h : Trace) (target : Text) : Prop :=
  source.Home web h → SameOrigin web source.options.url target

variable {web source}

theorem Home.earlier (ho : source.Home web h') (hh : h <+: h') : source.Home web h where
  redirects current target hl := ho.redirects current target (hl.later hh)
  links url text link target hmem := ho.links url text link target (hh.subset hmem)
  details url text node target hmem := ho.details url text node target (hh.subset hmem)

theorem mayRequest_walk (web : Web) (source : HtmlSource) :
    source.Walk web (source.MayRequest web) where
  later hh hm horigin := hm (horigin.earlier hh)
  led hm hl horigin := (hm horigin).trans (horigin.redirects _ _ hl)
  first _ := rfl
  next hm hlisted hlink hjoin horigin :=
    (hm horigin).trans (horigin.links _ _ _ _ hlisted hlink hjoin)
  detail hm hlisted hitem hdetail horigin :=
    (hm horigin).trans (horigin.details _ _ _ _ hlisted hitem hdetail)

end HtmlSource

theorem Sanctioned.carries {headers : Dict Text} {may : Trace → Text → Prop} {purpose : Purpose}
    {reply : Reply} (hs : Sanctioned web policy headers may h (exchanged purpose url headers reply))
    (hheaders : headers ≠ []) : may h url := by
  cases purpose with
  | page => exact (hs.page url headers rfl).2.2.2
  | robots => exact absurd (hs.robots url headers rfl).1 hheaders

/-- Configured headers go to the configured origin as long as everything that is followed on the
way stays with its origin. -/
theorem configured_headers_stay_home (web : Web) (policy : FetchPolicy) (collectedAt : Instant) :
    (∀ (source : ApiSource) trace out, (source.collect web policy collectedAt).Run trace out →
      source.options.headers ≠ [] → ∀ before after purpose target reply,
        trace = before ++ exchanged purpose target source.options.headers reply :: after →
          source.Home web before → SameOrigin web source.options.url target) ∧
      ∀ (source : HtmlSource) trace out, (source.collect web policy collectedAt).Run trace out →
        source.options.headers ≠ [] → ∀ before after purpose target reply,
          trace = before ++ exchanged purpose target source.options.headers reply :: after →
            source.Home web before → SameOrigin web source.options.url target := by
  constructor
  · intro source trace out hrun hheaders before after purpose target reply htrace
    have hwalk := ApiSource.mayRequest_walk web source
    obtain ⟨hevents, -⟩ := (ApiSource.collect_ensures hwalk collectedAt).run hrun
    exact (hevents before _ after htrace).carries hheaders
  · intro source trace out hrun hheaders before after purpose target reply htrace
    have hwalk := HtmlSource.mayRequest_walk web source
    obtain ⟨hevents, -⟩ := (HtmlSource.collect_ensures hwalk collectedAt).run hrun
    exact (hevents before _ after htrace).carries hheaders

private def moved (location : String) : Surroundings where
  server _ url :=
    .answered (if url = "http://a.fi/leads".toList then
        .of url 302 [("location".toList, location.toList)] ""
      else .of url 200 [] "")
  entries _ := none
  clock _ := 0

private def tokenSource : ApiSource where
  name := "api".toList
  mapping := []
  options :=
    { url := "http://a.fi/leads".toList
      headers := [("authorization".toList, "Bearer x".toList)]
      itemsPath := none
      nextPath := none
      pageParam := none
      startPage := 1
      maxPages := 20
      externalIdField := none
      sourceUrlField := none }

private def sentTo (url : Text) (headers : Dict Text) (e : Framework.Event Call.Answer) : Bool :=
  match e.call with
  | .request _ requested sent => requested == url && sent == headers
  | _ => false

private theorem sentTo_exchanged {url : Text} {headers : Dict Text} {trace : Trace}
    (h : trace.any (sentTo url headers) = true) :
    ∃ purpose reply, exchanged purpose url headers reply ∈ trace := by
  obtain ⟨⟨call, answer⟩, hmem, hsent⟩ := List.any_eq_true.mp h
  cases call with
  | request purpose requested sent =>
      obtain ⟨hurl, hheaders⟩ := Bool.and_eq_true_iff.mp hsent
      obtain rfl := eq_of_beq hurl
      obtain rfl := eq_of_beq hheaders
      exact ⟨purpose, answer, hmem⟩
  | _ => cases hsent

private theorem moved_home (location : String)
    (hstays : ∀ target, joinUrl Web.plain "http://a.fi/leads".toList location.toList = .ok target →
      SameOrigin Web.plain "http://a.fi/leads".toList target) {before : Trace}
    (hb : ∀ e ∈ before, ∃ h, e.answer = (moved location).answer h e.call) :
    tokenSource.Home Web.plain before where
  redirects current target hled := by
    obtain ⟨headers, answer, hmem, hredirects, hjoin⟩ := hled
    obtain ⟨h, hanswer⟩ := hb _ hmem
    obtain rfl := Reply.answered.inj hanswer
    split at hredirects
    · rename_i hcurrent
      rw [hcurrent] at hjoin ⊢
      exact hstays target hjoin
    · cases hredirects
  links url text payload link target _ hloads := by cases hloads

theorem configured_headers_stay_home_moved :
    ∃ purpose reply, exchanged purpose "http://a.fi:80/all".toList tokenSource.options.headers
        reply ∈ ((moved "http://a.fi:80/all").run (tokenSource.collect Web.plain .default 0)).1 ∧
      SameOrigin Web.plain tokenSource.options.url "http://a.fi:80/all".toList := by
  obtain ⟨purpose, reply, hmem⟩ := sentTo_exchanged (show
    ((moved "http://a.fi:80/all").run (tokenSource.collect Web.plain .default 0)).1.any
      (sentTo "http://a.fi:80/all".toList tokenSource.options.headers) = true by decide +kernel)
  obtain ⟨before, after, htrace⟩ := List.append_of_mem hmem
  refine ⟨purpose, reply, hmem, (configured_headers_stay_home Web.plain .default 0).1 tokenSource _ _
    (Dialogue.exec_run _ _ []) (by decide) before after purpose _ reply htrace
    (moved_home "http://a.fi:80/all" ?_ ?_)⟩
  · intro target hjoin
    have hjoined : joinUrl Web.plain "http://a.fi/leads".toList "http://a.fi:80/all".toList =
        .ok "http://a.fi:80/all".toList := by decide +kernel
    obtain rfl := Except.ok.inj (hjoined.symm.trans hjoin)
    unfold SameOrigin
    decide +kernel
  · intro e he
    exact Dialogue.exec_answered _ (htrace ▸ List.mem_append_left _ he)

/-- The token goes with the redirect. -/
theorem configured_headers_leave_home :
    ∃ purpose reply, exchanged purpose "http://b.fi/".toList tokenSource.options.headers reply ∈
        ((moved "http://b.fi/").run (tokenSource.collect Web.plain .default 0)).1 ∧
      ¬SameOrigin Web.plain tokenSource.options.url "http://b.fi/".toList := by
  obtain ⟨purpose, reply, hmem⟩ := sentTo_exchanged (show
    ((moved "http://b.fi/").run (tokenSource.collect Web.plain .default 0)).1.any
      (sentTo "http://b.fi/".toList tokenSource.options.headers) = true by decide +kernel)
  have haway : ¬pageOrigin Web.plain "http://a.fi/leads".toList =
      pageOrigin Web.plain "http://b.fi/".toList := by decide +kernel
  exact ⟨purpose, reply, hmem, haway⟩

end LeadPipe
