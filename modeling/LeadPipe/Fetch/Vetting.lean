import LeadPipe.Fetch.Surroundings

/-!
# Every page request is vetted

However the servers answer, a page is only ever requested from an address that was found safe and,
where `robots.txt` is respected, that the rules for it allow; and `robots.txt` itself is requested
from the host of such an address.
-/

namespace LeadPipe

open Framework Urllib

variable {web : Web} {policy : FetchPolicy}

/-- The client connects to the same host for both addresses. -/
def SameHost (web : Web) (a b : Text) : Prop :=
  ∃ parts parts', splitUrl web a = .ok parts ∧ splitUrl web b = .ok parts' ∧
    parts.hostname web.platform.unicode = parts'.hostname web.platform.unicode

theorem origin_eq {url o : Text} {parts : SplitResult} (hsplit : splitUrl web url = .ok parts)
    (ho : RobotsCache.origin web url = .ok o) : o = unsplit parts.scheme parts.netloc [] [] [] := by
  unfold RobotsCache.origin at ho
  rw [hsplit] at ho
  exact (Except.ok.inj ho).symm

theorem splitUrl_robotsUrl {url o : Text} {parts : SplitResult}
    (hsplit : splitUrl web url = .ok parts) (hscheme : IsScheme parts.scheme)
    (hnetloc : parts.netloc ≠ []) (ho : RobotsCache.origin web url = .ok o) :
    splitUrl web (RobotsCache.robotsUrl o) =
      .ok (resultOf parts.scheme parts.netloc "/robots.txt".toList) := by
  have hne : parts.scheme ≠ [] := by
    obtain ⟨c, cs, hcons, -⟩ := hscheme.leads
    simp [hcons]
  have hrobots : RobotsCache.robotsUrl o =
      parts.scheme ++ ':' :: '/' :: '/' :: (parts.netloc ++ "/robots.txt".toList) := by
    rw [RobotsCache.robotsUrl, origin_eq hsplit ho, unsplit_rooted [] [] hne hnetloc (.inl rfl)]
    simp [tailOf, queryPart]
  have hparts := splitUrl_ok.mp hsplit
  have hok : acceptable web.platform.unicode web.platform.isIPv6 parts.netloc = true := by
    obtain ⟨hok, hresult⟩ := urlsplit_some hparts
    rw [hresult]
    exact hok
  rw [splitUrl_ok, hrobots]
  apply urlsplit_joined _ _ hscheme (fun c hc => urlsplit_netloc hparts hc) hok
  · rintro c ⟨⟩
    rfl
  · have hnone : "/robots.txt".toList.any isUnsafeByte = false := by decide
    simpa only [List.any_eq_false, Bool.not_eq_true] using hnone

theorem safe_scheme {parts : SplitResult} (hscheme : parts.scheme = [] ∨ IsScheme parts.scheme)
    (hallowed : allowedSchemes.contains parts.scheme = true) : IsScheme parts.scheme := by
  rcases hscheme with hnone | hscheme
  · rw [hnone] at hallowed
    cases hallowed
  · exact hscheme

theorem robotsUrl_host {url o : Text} (hs : safeUrl web policy url = .ok url)
    (ho : RobotsCache.origin web url = .ok o) : SameHost web (RobotsCache.robotsUrl o) url := by
  obtain ⟨-, parts, hsplit, hallowed, host, hhost, -⟩ := safeUrl_ok.mp hs
  have hscheme := safe_scheme (urlsplit_scheme (splitUrl_ok.mp hsplit)) hallowed
  exact ⟨_, parts, splitUrl_robotsUrl hsplit hscheme (hostname_netloc hhost) ho, hsplit,
    hostname_congr rfl⟩

/-- A page may be requested if it is the one asked for or a redirect led to it. -/
def Asked (web : Web) (url : Text) (h : Trace) (target : Text) : Prop :=
  target = url ∨ ∃ current, LedTo web h current target

theorem asked_reach (web : Web) (url : Text) : Reach web (Asked web url) where
  later hh := Or.imp_right fun ⟨current, hl⟩ => ⟨current, hl.later hh⟩
  led _ hl := .inr ⟨_, hl⟩

/-- Every request is preceded by what makes it safe, and there are not too many of them. -/
theorem page_requests_are_vetted (hretries : 0 ≤ policy.retries)
    (hredirects : 0 ≤ policy.maxRedirects) {url : Text} {headers : Dict Text} {trace : Trace}
    {out : Except Raised FetchResponse}
    (hrun : (Fetcher.get web policy url headers).Run trace out) :
    (∀ before after target hdrs reply,
      trace = before ++ exchanged .page target hdrs reply :: after →
        Vetted web policy before target ∧ Allowed web policy before target) ∧
      (∀ before after target hdrs reply,
        trace = before ++ exchanged .robots target hdrs reply :: after →
          ∃ page, Vetted web policy before page ∧ SameHost web target page) ∧
        (pageRequests trace : Int) ≤ (policy.maxRedirects + 1) * (policy.retries + 1) := by
  obtain ⟨hevents, hcount, -⟩ :=
    (get_ensures headers [] (asked_reach web url) (.inl rfl)).run hrun
  refine ⟨?_, ?_, ?_⟩
  · intro before after target hdrs reply htrace
    obtain ⟨hvetted, hpermitted, -⟩ := (hevents before _ after htrace).page target hdrs rfl
    exact ⟨hvetted, hpermitted⟩
  · intro before after target hdrs reply htrace
    obtain ⟨-, page, o, hvetted, horigin, rfl⟩ :=
      (hevents before _ after htrace).robots target hdrs rfl
    exact ⟨page, hvetted, robotsUrl_host hvetted.2 horigin⟩
  · have hbound : ((policy.maxRedirects.toNat + 1) * policy.attempts : Nat) =
        (policy.maxRedirects + 1) * (policy.retries + 1) := by
      unfold FetchPolicy.attempts
      rw [Int.natCast_mul, Int.natCast_add, Int.toNat_of_nonneg hredirects,
        Int.toNat_of_nonneg (by omega)]
      rfl
    rw [← hbound]
    have hstart : pageRequests ([] : Trace) = 0 := rfl
    rw [List.nil_append, hstart, Nat.zero_add] at hcount
    exact Int.ofNat_le.mpr hcount

private def onward : Surroundings where
  server _ url := .answered (.of url 302 [("location".toList, "next".toList)] "")
  entries _ := none
  clock _ := 0

theorem page_requests_are_vetted_onward :
    let run := onward.run (Fetcher.get Web.plain .default "http://a.fi/".toList [])
    (∀ before after target hdrs reply,
      run.1 = before ++ exchanged .page target hdrs reply :: after →
        Vetted Web.plain .default before target ∧ Allowed Web.plain .default before target) ∧
      (∀ before after target hdrs reply,
        run.1 = before ++ exchanged .robots target hdrs reply :: after →
          ∃ page, Vetted Web.plain .default before page ∧ SameHost Web.plain target page) ∧
        (pageRequests run.1 : Int) ≤ (5 + 1) * (2 + 1) :=
  page_requests_are_vetted (by decide) (by decide) (Dialogue.exec_run onward.answer _ [])

end LeadPipe
