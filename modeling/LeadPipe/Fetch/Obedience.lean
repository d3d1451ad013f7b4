import LeadPipe.Fetch.Vetting

/-!
# Obeying `robots.txt`

The rules for a page are read off the first answer to the request for `robots.txt`, which is neither
repeated nor followed where it redirects. What a page would have been read as does not matter.
-/

namespace LeadPipe

open Framework Urllib

variable {web : Web} {policy : FetchPolicy}

theorem scheme_rooted {url rest : Text} (h : url = '/' :: rest) {parts : SplitResult}
    (hs : splitUrl web url = .ok parts) : parts.scheme = [] := by
  obtain ⟨-, rfl⟩ := urlsplit_some (splitUrl_ok.mp hs)
  have hstripped : ∃ tail, stripped url = '/' :: tail := by
    rw [h, stripped, Text.lstrip, List.dropWhile_cons_of_neg (by decide),
      List.filter_cons_of_pos (by decide)]
    exact ⟨_, rfl⟩
  obtain ⟨tail, htail⟩ := hstripped
  rw [htail, splitScheme_rooted]
  rfl

theorem SafeParts.congr {parts parts' : SplitResult} (hs : SafeParts web policy parts)
    (hscheme : parts.scheme = parts'.scheme) (hnetloc : parts.netloc = parts'.netloc)
    {policy' : FetchPolicy} (hprivate : policy.allowPrivateHosts = policy'.allowPrivateHosts) :
    SafeParts web policy' parts' := by
  unfold SafeParts at hs ⊢
  rwa [← hscheme, ← hprivate, ← hostname_congr hnetloc]

theorem robotsUrl_bare {scheme : Text} (hscheme : IsScheme scheme) {parts : SplitResult}
    (hs : splitUrl web (RobotsCache.robotsUrl (unsplit scheme [] [] [] [])) = .ok parts) :
    parts.netloc = [] := by
  have hne : scheme.isEmpty = false := by
    obtain ⟨c, cs, rfl, -⟩ := hscheme.leads
    rfl
  have haddress : ∃ rest, (rest = "/robots.txt".toList ∨ rest = "///robots.txt".toList) ∧
      RobotsCache.robotsUrl (unsplit scheme [] [] [] []) = scheme ++ ':' :: rest := by
    unfold RobotsCache.robotsUrl unsplit joinParts withAuthority
    simp only [hne, Bool.false_eq_true, if_false]
    cases usesNetloc.contains scheme with
    | false => exact ⟨_, .inl rfl, by simp [Text.orNone, Text.startsWith]⟩
    | true => exact ⟨_, .inr rfl, by simp [Text.orNone, Text.startsWith]⟩
  obtain ⟨rest, hrest, haddress⟩ := haddress
  obtain ⟨-, rfl⟩ := urlsplit_some (splitUrl_ok.mp hs)
  rw [haddress, stripped_scheme hscheme, hscheme.split]
  rcases hrest with rfl | rfl
  · rfl
  · rfl

/-- Where `robots.txt` may be asked for, the page it is for may be. -/
theorem safe_of_robots {url o target : Text} (ho : RobotsCache.origin web url = .ok o)
    {policy' : FetchPolicy} (hprivate : policy'.allowPrivateHosts = policy.allowPrivateHosts)
    (hs : safeUrl web policy' (RobotsCache.robotsUrl o) = .ok target) :
    safeUrl web policy url = .ok url := by
  obtain ⟨rfl, parts', hsplit', hsafe⟩ := safeUrl_ok.mp hs
  cases hsplit : splitUrl web url with
  | error e =>
      unfold RobotsCache.origin at ho
      rw [hsplit] at ho
      cases ho
  | ok parts =>
      have horigin := origin_eq hsplit ho
      rcases urlsplit_scheme (splitUrl_ok.mp hsplit) with hnone | hscheme
      · have hrooted : ∃ rest, RobotsCache.robotsUrl o = '/' :: rest := by
          rw [horigin, hnone]
          cases hnetloc : parts.netloc with
          | nil => exact ⟨_, rfl⟩
          | cons c cs => exact ⟨_, rfl⟩
        obtain ⟨rest, hrest⟩ := hrooted
        have hallowed := hsafe.1
        rw [scheme_rooted hrest hsplit'] at hallowed
        cases hallowed
      · by_cases hnetloc : parts.netloc = []
        · rw [horigin, hnetloc] at hsplit'
          obtain ⟨-, host, hhost, -⟩ := hsafe
          exact absurd (robotsUrl_bare hscheme hsplit') (hostname_netloc hhost)
        · have hrobots := splitUrl_robotsUrl hsplit hscheme hnetloc ho
          obtain rfl := Except.ok.inj (hrobots.symm.trans hsplit')
          exact safeUrl_ok.mpr ⟨rfl, parts, hsplit, hsafe.congr rfl rfl hprivate⟩

variable (web policy)

/-- The answer to `robots.txt` is read as a refusal of the page: it cannot be read, the server is
at fault, or what it says below status 400 forbids the page. -/
def Forbids (robots url : Text) (reply : Reply) : Prop :=
  ∀ response, readReply web policy robots reply = .ok response →
    response.statusCode ≥ 500 ∨ (response.statusCode < 400 ∧
      web.robotsParse (Text.splitlines [] response.text) = .ok () ∧
        web.canFetch (Text.splitlines [] response.text) policy.userAgent url = .ok false)

/-- The rules that are cached and not out of date, or else the first answer, refuse the page. -/
def Refused (w : Surroundings) (o url : Text) : Prop :=
  match (w.entries o).filter fun rules => w.clock 0 - rules.fetchedAt < policy.robotsTtl with
  | some rules => rules.allows web url policy.userAgent = .ok false
  | none => Forbids web policy (RobotsCache.robotsUrl o) url (w.server 0 (RobotsCache.robotsUrl o))

/-- What loading the rules comes to: rules that refuse the page exactly if the first answer does,
or an exception of the parser. -/
def Settled (refused : Prop) (url : Text) : Except Raised RobotsRules → Prop
  | .ok rules => rules.allows web url policy.userAgent = .ok false ↔ refused
  | .error e => (∃ m, e = .other m) ∧ ¬refused

variable {web policy}

section Running

variable {w : Surroundings} {h : Trace} {o url : Text}

/-- Nothing has been requested, read off the clock or put into the cache yet. -/
structure Untouched (h : Trace) : Prop where
  requests : ∀ url, h.countP (isRequestFor url) = 0
  clock : h.countP isReading = 0
  cache : ∀ o, remembered o h = none
  pages : pageRequests h = 0

theorem read_exec (web : Web) (policy : FetchPolicy) (w : Surroundings) (h : Trace)
    (purpose : Purpose) (url : Text) (headers : Dict Text) :
    Dialogue.exec w.answer (read web policy purpose url headers) h =
      ([exchanged purpose url headers (w.server (h.countP (isRequestFor url)) url)],
        readReply web policy url (w.server (h.countP (isRequestFor url)) url)) := by
  unfold read
  rw [Dialogue.exec_bind_ok (w.exec_send h purpose url headers), Dialogue.exec_lift]
  rfl

/-- Without an earlier request it is the first answer that is read. -/
theorem fetchRobots_exec (policy : FetchPolicy) (w : Surroundings) {robots : Text}
    {parts : SplitResult}
    (hsplit : splitUrl web robots = .ok parts) (hrequests : h.countP (isRequestFor robots) = 0) :
    ∃ trace, pageRequests trace = 0 ∧
      Dialogue.exec w.answer (fetchRobots web policy robots) h =
        (trace, (readReply web policy robots (w.server 0 robots)).map
          fun r => (r.statusCode, r.text)) := by
  have hhost : hostOf web robots =
      .ok ((parts.hostname web.platform.unicode).getD []) := by
    unfold hostOf
    rw [hsplit]
    rfl
  have hwaited (host : Text) :
      (h ++ [] ++ [(⟨Call.wait host none, ()⟩ : Event Call.Answer)]).countP
        (isRequestFor robots) = 0 := by
    rw [List.append_nil, List.countP_append, hrequests]
    rfl
  have hread := read_exec web policy w
    (h ++ [] ++ [⟨Call.wait ((parts.hostname web.platform.unicode).getD []) none, ()⟩])
    .robots robots []
  rw [hwaited] at hread
  unfold fetchRobots
  rw [hhost, Dialogue.exec_bind_ok (Dialogue.exec_lift ..),
    Dialogue.exec_bind_ok (w.exec_wait ..)]
  cases hreply : readReply web policy robots (w.server 0 robots) with
  | ok response =>
      rw [hreply] at hread
      rw [Dialogue.exec_bind_ok hread]
      exact ⟨_, rfl, rfl⟩
  | error e =>
      rw [hreply] at hread
      rw [Dialogue.exec_bind_error hread]
      exact ⟨_, rfl, rfl⟩

theorem pageRequests_join (h h' : Trace) :
    pageRequests (h ++ h') = pageRequests h + pageRequests h' := by
  unfold pageRequests
  rw [List.countP_append]

/-- The program requests no page, and ends in what `post` says. -/
def Quietly {α : Type} (w : Surroundings) (post : Except Raised α → Prop) (m : Fetch α)
    (h : Trace) : Prop :=
  pageRequests (Dialogue.exec w.answer m h).1 = 0 ∧ post (Dialogue.exec w.answer m h).2

section Rules

variable {α β : Type} {m : Fetch α} {f : α → Fetch β} {post : Except Raised β → Prop}
  {trace : Trace}

theorem Quietly.bind {a : α} (hm : Dialogue.exec w.answer m h = (trace, .ok a))
    (hpages : pageRequests trace = 0) (hf : Quietly w post (f a) (h ++ trace)) :
    Quietly w post (m >>= f) h := by
  unfold Quietly
  rw [Dialogue.exec_bind_ok hm, pageRequests_join, hpages, hf.1]
  exact ⟨rfl, hf.2⟩

theorem Quietly.raised {e : Raised} (hm : Dialogue.exec w.answer m h = (trace, .error e))
    (hpages : pageRequests trace = 0) (hpost : post (.error e)) : Quietly w post (m >>= f) h := by
  unfold Quietly
  rw [Dialogue.exec_bind_error hm]
  exact ⟨hpages, hpost⟩

theorem Quietly.seq {mid : Except Raised α → Prop} (hm : Quietly w mid m h)
    (hf : ∀ h' a, mid (.ok a) → Quietly w post (f a) h')
    (he : ∀ e, mid (.error e) → post (.error e)) : Quietly w post (m >>= f) h := by
  obtain ⟨hpages, hmid⟩ := hm
  cases hexec : Dialogue.exec w.answer m h with
  | mk trace out =>
      rw [hexec] at hpages hmid
      cases out with
      | ok a => exact Quietly.bind hexec hpages (hf _ a hmid)
      | error e => exact Quietly.raised hexec hpages (he e hmid)

theorem Quietly.lift {x : Except Raised α} {post : Except Raised α → Prop} (hx : post x) :
    Quietly w post (Dialogue.lift x) h := by
  unfold Quietly
  rw [Dialogue.exec_lift]
  exact ⟨rfl, hx⟩

theorem Quietly.now {k : Instant → α} {post : Except Raised α → Prop}
    (hk : ∀ now, post (.ok (k now))) : Quietly w post (Fetch.now >>= fun now => pure (k now)) h :=
  Quietly.bind (w.exec_now h) rfl ⟨rfl, hk _⟩

end Rules

theorem load_quietly {parts : SplitResult}
    (hsplit : splitUrl web (RobotsCache.robotsUrl o) = .ok parts)
    (hrequests : h.countP (isRequestFor (RobotsCache.robotsUrl o)) = 0) (url : Text) :
    Quietly w (Settled web policy (Forbids web policy (RobotsCache.robotsUrl o) url
      (w.server 0 (RobotsCache.robotsUrl o))) url)
      (RobotsCache.load web (fetchRobots web policy) o) h := by
  obtain ⟨trace, hpages, hfetch⟩ := fetchRobots_exec policy w hsplit hrequests
  have htried := Dialogue.exec_attempt w.answer (fetchRobots web policy (RobotsCache.robotsUrl o)) h
  rw [hfetch] at htried
  unfold RobotsCache.load Forbids
  apply Quietly.bind htried hpages
  cases hreply : readReply web policy (RobotsCache.robotsUrl o)
      (w.server 0 (RobotsCache.robotsUrl o)) with
  | error e =>
      apply Quietly.now
      simp [Settled, RobotsRules.allows]
  | ok response =>
      dsimp only [Except.map]
      split
      · rename_i hserver
        apply Quietly.now
        simp [Settled, RobotsRules.allows, hserver]
      · rename_i hserver
        split
        · rename_i hclient
          apply Quietly.now
          simp [Settled, RobotsRules.allows, hserver, hclient]
        · rename_i hclient
          have hstatus : response.statusCode < 400 := by omega
          cases hparse : web.robotsParse (Text.splitlines [] response.text) with
          | error m =>
              apply Quietly.raised (Dialogue.exec_lift ..) rfl
              exact ⟨⟨m, rfl⟩, by simp [hserver, hparse]⟩
          | ok u =>
              apply Quietly.bind (Dialogue.exec_lift ..) rfl
              apply Quietly.now
              intro now
              simp only [Settled, RobotsRules.allows]
              cases hcan : web.canFetch (Text.splitlines [] response.text) policy.userAgent
                  url with
              | error m => simp [Except.mapError, hserver, hcan]
              | ok allowed => simp [Except.mapError, hserver, hstatus, hparse, hcan]

theorem fresh_exec (policy : FetchPolicy) (w : Surroundings) (entry : Option RobotsRules)
    (h : Trace) :
    ∃ trace, pageRequests trace = 0 ∧ (∀ url, trace.countP (isRequestFor url) = 0) ∧
      Dialogue.exec w.answer (RobotsCache.fresh policy entry) h = (trace, .ok (entry.filter
        fun rules => w.clock (h.countP isReading) - rules.fetchedAt < policy.robotsTtl)) := by
  cases entry with
  | none => exact ⟨[], rfl, fun _ => rfl, rfl⟩
  | some rules =>
      unfold RobotsCache.fresh
      dsimp only
      refine ⟨[⟨.clock, w.clock (h.countP isReading)⟩], rfl, fun _ => rfl, ?_⟩
      rw [Dialogue.exec_bind_ok (w.exec_now h), Option.filter_some]
      simp only [decide_eq_true_eq]
      rfl

/-- The rules in force refuse a page exactly if the cache or the first answer does. -/
theorem rulesFor_quietly {parts : SplitResult} (ho : RobotsCache.origin web url = .ok o)
    (hsplit : splitUrl web (RobotsCache.robotsUrl o) = .ok parts) (hh : Untouched h) :
    Quietly w (Settled web policy (Refused web policy w o url) url)
      (RobotsCache.rulesFor web policy (fetchRobots web policy) url) h := by
  unfold RobotsCache.rulesFor
  rw [ho]
  apply Quietly.bind (Dialogue.exec_lift ..) rfl
  apply Quietly.bind (w.exec_cached _ o) rfl
  rw [List.append_nil, hh.cache, Option.none_or]
  obtain ⟨trace, hpages, hquiet, hfresh⟩ := fresh_exec policy w (w.entries o)
    (h ++ [⟨Call.cached o, w.entries o⟩])
  have hclock : (h ++ [(⟨Call.cached o, w.entries o⟩ : Event Call.Answer)]).countP
      isReading = 0 := by
    rw [List.countP_append, hh.clock]
    rfl
  rw [hclock] at hfresh
  apply Quietly.bind hfresh hpages
  unfold Refused
  cases (w.entries o).filter fun rules => w.clock 0 - rules.fetchedAt < policy.robotsTtl with
  | some rules => exact ⟨rfl, Iff.rfl⟩
  | none =>
      apply (load_quietly hsplit ?_ url).seq
      · exact fun h' rules hsettled => Quietly.bind (w.exec_remember h' o rules) rfl ⟨rfl, hsettled⟩
      · exact fun e hsettled => hsettled
      · rw [List.countP_append, List.countP_append, hh.requests, hquiet]
        rfl

theorem allows_error {rules : RobotsRules} {agent : Text} {e : Raised}
    (hr : rules.allows web url agent = .error e) : ∃ m, e = .other m := by
  unfold RobotsRules.allows at hr
  split at hr
  · cases hr
  · split at hr
    · rename_i parser _ _
      cases hcan : web.canFetch parser agent url with
      | ok allowed =>
          rw [hcan] at hr
          cases hr
      | error m =>
          rw [hcan] at hr
          exact ⟨m, (Except.error.inj hr).symm⟩
    · cases hr

theorem crawlDelay_error {rules : RobotsRules} {agent : Text} {e : Raised}
    (hr : rules.crawlDelay web agent = .error e) : ∃ m, e = .other m := by
  unfold RobotsRules.crawlDelay at hr
  split at hr
  · cases hr
  · rename_i parser _
    cases hdelay : web.robotsDelay parser agent with
    | ok delay =>
        rw [hdelay] at hr
        exact RobotsRules.floatDelay_error hr
    | error m =>
        rw [hdelay] at hr
        exact ⟨m, (Except.error.inj hr).symm⟩

theorem checkRobots_quietly {parts : SplitResult} (hrespect : policy.respectRobots = true)
    (ho : RobotsCache.origin web url = .ok o)
    (hsplit : splitUrl web (RobotsCache.robotsUrl o) = .ok parts) (hh : Untouched h) :
    Quietly w (fun out => (∃ m, out = .error (.fetch (.robotsDisallowed m))) ↔
      Refused web policy w o url) (checkRobots web policy url) h := by
  unfold checkRobots
  rw [hrespect]
  apply (rulesFor_quietly ho hsplit hh).seq
  · intro h' rules hsettled
    apply Quietly.bind (w.exec_note h' _) rfl
    cases hallows : rules.allows web url policy.userAgent with
    | error e =>
        obtain ⟨m, rfl⟩ := allows_error hallows
        apply Quietly.raised (Dialogue.exec_lift ..) rfl
        refine iff_of_false (by simp) fun hrefused => ?_
        rw [hsettled.mpr hrefused] at hallows
        cases hallows
    | ok allowed =>
        apply Quietly.bind (Dialogue.exec_lift ..) rfl
        cases allowed with
        | false => exact ⟨rfl, iff_of_true ⟨_, rfl⟩ (hsettled.mp hallows)⟩
        | true =>
            apply Quietly.lift
            refine iff_of_false ?_ fun hrefused => ?_
            · rintro ⟨m, hdisallowed⟩
              obtain ⟨m', heq⟩ := crawlDelay_error hdisallowed
              cases heq
            · rw [hsettled.mpr hrefused] at hallows
              cases hallows
  · rintro e ⟨⟨m, rfl⟩, hallowed⟩
    simp [hallowed]

def Tried (url : Text) (h : Trace) (out : Except Raised FetchResponse) : Prop :=
  (∃ hdrs reply, exchanged .page url hdrs reply ∈ h) ∨
    ∃ m, out = .error (.fetch (.fetchError m))

theorem requested_stays {hdrs : Dict Text} {reply : Reply}
    (hmem : exchanged .page url hdrs reply ∈ h) (m : Fetch FetchResponse) :
    Dialogue.Ensures (fun _ _ => True) (Tried url) m h :=
  (Dialogue.Ensures.any m h).mono (fun _ _ _ hok => hok)
    fun _ _ _ hlonger => .inl ⟨hdrs, reply, hlonger.subset hmem⟩

theorem request_tries (hs : safeUrl web policy url = .ok url) (headers : Dict Text)
    (delay : Option Nat) (left attempt : Nat) (last : Option Text) (h : Trace) :
    Dialogue.Ensures (fun _ _ => True) (Tried url)
      (request web policy url headers delay left attempt last) h := by
  cases left with
  | zero => exact .inr ⟨_, rfl⟩
  | succ left =>
      obtain ⟨host, hhost⟩ := hostOf_ok hs
      unfold request
      rw [hhost]
      -- the first two calls are the wait and the request
      refine fun _ => ⟨trivial, fun reply => ⟨trivial, ?_⟩⟩
      have hmem : exchanged .page url headers reply ∈
          h ++ [⟨Call.wait host delay, ()⟩] ++ [⟨Call.request .page url headers, reply⟩] := by
        simp [exchanged]
      exact requested_stays hmem _

theorem getWithRedirects_tries (hs : safeUrl web policy url = .ok url) (start : Text)
    (headers : Dict Text) (left : Nat) (delay : Option Nat) (h : Trace) :
    Dialogue.Ensures (fun _ _ => True) (Tried url)
      (getWithRedirects web policy start headers left url delay) h := by
  have hhop (follow : Text → Fetch FetchResponse) : Dialogue.Ensures (fun _ _ => True) (Tried url)
      (hop web policy headers url delay follow) h := by
    apply (request_tries hs headers delay policy.attempts 0 none h).seq
    · rintro h' response - (⟨hdrs, reply, hmem⟩ | ⟨m, ⟨⟩⟩)
      exact requested_stays hmem _
    · rintro h' e - (hmem | ⟨m, hm⟩)
      · exact .inl hmem
      · exact .inr ⟨m, congrArg Except.error (Except.error.inj hm)⟩
  cases left with
  | zero => exact hhop _
  | succ left => exact hhop _

end Running

variable (web policy)

/-- Requested as a page is, by its redirects, `robots.txt` ends in rules that forbid the page. -/
def Disallowed (w : Surroundings) (o url : Text) : Prop :=
  ∃ response, (w.run (Fetcher.get web { policy with respectRobots := false }
      (RobotsCache.robotsUrl o) [])).2 = .ok response ∧ response.statusCode = 200 ∧
    web.robotsParse (Text.splitlines [] response.text) = .ok () ∧
      web.canFetch (Text.splitlines [] response.text) policy.userAgent url = .ok false

/-- The page is refused, and never requested. -/
def Obeyed (w : Surroundings) (url : Text) (headers : Dict Text) : Prop :=
  (∃ m, (w.run (Fetcher.get web policy url headers)).2 = .error (.fetch (.robotsDisallowed m))) ∧
    ∀ hdrs reply, exchanged .page url hdrs reply ∉ (w.run (Fetcher.get web policy url headers)).1

variable {web policy}

theorem get_safe {w : Surroundings} {url : Text} {headers : Dict Text} {response : FetchResponse}
    (hr : (w.run (Fetcher.get web policy url headers)).2 = .ok response) :
    safeUrl web policy url = .ok url := by
  cases hs : safeUrl web policy url with
  | ok target =>
      obtain ⟨rfl, -⟩ := safeUrl_ok.mp hs
      rfl
  | error e =>
      have herror : (w.run (Fetcher.get web policy url headers)).2 = .error e := by
        unfold Surroundings.run Fetcher.get ensureSafeUrl
        rw [hs]
        rfl
      rw [herror] at hr
      cases hr

theorem pageRequests_of_mem {h : Trace} {url : Text} {hdrs : Dict Text} {reply : Reply}
    (hmem : exchanged .page url hdrs reply ∈ h) : pageRequests h ≠ 0 := by
  have hpos : 0 < pageRequests h := List.countP_pos_iff.mpr ⟨_, hmem, rfl⟩
  omega

/-- What `robots.txt` redirects to is obeyed exactly if the rules in force refuse the page. -/
theorem robots_redirects_obeyed_iff (hrespect : policy.respectRobots = true) {w : Surroundings}
    {url o : Text} (ho : RobotsCache.origin web url = .ok o)
    (hdisallowed : Disallowed web policy w o url) (headers : Dict Text) :
    Obeyed web policy w url headers ↔ Refused web policy w o url := by
  obtain ⟨response, hresponse, -⟩ := hdisallowed
  have hrobots := get_safe hresponse
  obtain ⟨-, parts, hsplit, -⟩ := safeUrl_ok.mp hrobots
  have hs : safeUrl web policy url = .ok url := safe_of_robots ho rfl hrobots
  have hstart : Dialogue.exec w.answer (ensureSafeUrl web policy url) [] =
      ([marked (.vetted url)], .ok url) := by
    unfold ensureSafeUrl
    rw [hs]
    rfl
  obtain ⟨hpages, hchecked⟩ := checkRobots_quietly (w := w) hrespect ho hsplit
    (h := [] ++ [marked (.vetted url)]) ⟨fun _ => rfl, rfl, fun _ => rfl, rfl⟩
  unfold Obeyed Surroundings.run Fetcher.get
  rw [Dialogue.exec_bind_ok hstart]
  cases hexec : Dialogue.exec w.answer (checkRobots web policy url)
      ([] ++ [marked (.vetted url)]) with
  | mk trace out =>
      rw [hexec] at hpages hchecked
      cases out with
      | error e =>
          rw [Dialogue.exec_bind_error hexec, ← hchecked]
          constructor
          · rintro ⟨⟨m, hm⟩, -⟩
            exact ⟨m, congrArg Except.error (Except.error.inj hm)⟩
          · rintro ⟨m, hm⟩
            refine ⟨⟨m, congrArg Except.error (Except.error.inj hm)⟩, fun hdrs reply hmem => ?_⟩
            rcases List.mem_append.mp hmem with hvetted | hpage
            · cases List.mem_singleton.mp hvetted
            · exact pageRequests_of_mem hpage hpages
      | ok delay =>
          rw [Dialogue.exec_bind_ok hexec, ← hchecked]
          refine iff_of_false ?_ (by simp)
          rintro ⟨⟨m, hm⟩, hnone⟩
          have htries := getWithRedirects_tries hs url headers
            policy.maxRedirects.toNat delay ([] ++ [marked (.vetted url)] ++ trace)
          rcases (htries.run (Dialogue.exec_run w.answer _
            ([] ++ [marked (.vetted url)] ++ trace))).2 with ⟨hdrs, reply, hmem⟩ | ⟨m', hgave⟩
          · refine hnone hdrs reply ?_
            simpa only [List.nil_append, List.append_assoc] using hmem
          · cases hm.symm.trans hgave

/-- A server that forbids everything, in `robots.txt` or elsewhere. -/
private def forbidding (robots : Answer) : Surroundings where
  server _ url :=
    .answered (if url = "http://a.fi/robots.txt".toList then robots
      else .of url 200 [] "Disallow: /")
  entries _ := none
  clock _ := 0

/-- The redirect says itself that everything is disallowed. -/
private def doubled : Surroundings :=
  forbidding (.of "http://a.fi/robots.txt".toList 302 [("location".toList, "/rules.txt".toList)]
    "Disallow: /")

theorem robots_redirects_obeyed_iff_doubled :
    Obeyed Web.plain .default doubled "http://a.fi/leads".toList [] := by
  have hdisallowed : Disallowed Web.plain .default doubled "http://a.fi".toList
      "http://a.fi/leads".toList :=
    ⟨⟨"http://a.fi/rules.txt".toList, 200, "Disallow: /".toUTF8.data.toList, []⟩,
      by decide +kernel, rfl, rfl, by decide +kernel⟩
  refine (robots_redirects_obeyed_iff rfl (by decide +kernel) hdisallowed []).mpr ?_
  intro response hresponse
  obtain rfl : ⟨"http://a.fi/robots.txt".toList, 302, "Disallow: /".toUTF8.data.toList,
      [("location".toList, "/rules.txt".toList)]⟩ = response :=
    Except.ok.inj ((by decide +kernel : _ = _).trans hresponse)
  exact .inr ⟨by decide, rfl, by decide +kernel⟩

private def redirected : Surroundings :=
  forbidding (.of "http://a.fi/robots.txt".toList 302 [("location".toList, "/rules.txt".toList)] "")

/-- The redirect itself is read as rules that allow everything. -/
theorem redirected_robots_are_not_obeyed :
    RobotsCache.origin Web.plain "http://a.fi/leads".toList = .ok "http://a.fi".toList ∧
      Disallowed Web.plain .default redirected "http://a.fi".toList
        "http://a.fi/leads".toList ∧
        ¬Obeyed Web.plain .default redirected "http://a.fi/leads".toList [] := by
  refine ⟨by decide +kernel, ⟨⟨"http://a.fi/rules.txt".toList, 200,
    "Disallow: /".toUTF8.data.toList, []⟩, by decide +kernel, rfl, rfl, by decide +kernel⟩, ?_⟩
  have hfetched : (redirected.run (Fetcher.get Web.plain .default
      "http://a.fi/leads".toList [])).2 =
      .ok ⟨"http://a.fi/leads".toList, 200, "Disallow: /".toUTF8.data.toList, []⟩ := by
    decide +kernel
  rintro ⟨⟨m, hm⟩, -⟩
  cases hfetched.symm.trans hm

end LeadPipe
