import LeadPipe.Fetch.Politeness

/-!
# How far apart requests are

All runs of a fetcher, with any number of calls in any order. The throttle keeps what each request
asked it for; what they ask for is the interval of the policy and, for pages, the delay that the
rules of the origin give.
-/

namespace LeadPipe

open Framework Urllib

variable (web : Web) (policy : FetchPolicy) (minInterval : ℚ)

/-- The request is one of the call's: it waited for its host, a page with a delay of its rules. -/
def Backed (h : Trace) (r : Request) : Prop :=
  ∃ before delay, before ++ [⟨.wait r.key delay, ()⟩] <+: h ∧ hostOf web r.url = .ok r.key ∧
    r.interval = throttleInterval minInterval delay ∧ (r.purpose = .robots → delay = none) ∧
      (r.purpose = .page → Informed web policy before r.url delay)

/-- What the calls of a fetcher have done together. -/
structure Fetcher.Sound (s : Fetcher) : Prop where
  calls : ∀ t ∈ s.calls, t.Obeys (Polite web policy) fun _ _ => True
  cache : ∀ origin rules, s.cache origin = some rules →
    ∃ t ∈ s.calls, ⟨.remember origin rules, ()⟩ ∈ t.done
  cached : ∀ origin rules, (∃ t ∈ s.calls, ⟨.cached origin, some rules⟩ ∈ t.done) →
    ∃ t ∈ s.calls, ⟨.remember origin rules, ()⟩ ∈ t.done
  requests : ∀ r ∈ requests s.log, ∃ t ∈ s.calls, Backed web policy minInterval t.done r
  throttled : s.Throttled

variable {web policy minInterval}

theorem Backed.onward {ts ts' : List Getting} (h : Onward ts ts') {r : Request}
    (hb : ∃ t ∈ ts, Backed web policy minInterval t.done r) :
    ∃ t ∈ ts', Backed web policy minInterval t.done r := by
  obtain ⟨t, ht, before, delay, hbefore, hrest⟩ := hb
  obtain ⟨t', ht', hdone⟩ := h t ht
  exact ⟨t', ht', before, delay, hbefore.trans hdone, hrest⟩

namespace Fetcher

variable {s s' : Fetcher}

theorem Answers.wait {host : Text} {delay : Option Nat} {a : Unit} {key : Text} {interval : ℚ}
    (h : s.Answers minInterval (.wait host delay) a key interval s') :
    key = host ∧ interval = throttleInterval minInterval delay := by
  cases h with
  | free | leave => exact ⟨rfl, rfl⟩

theorem Answers.cache {c : Call} {a : c.Answer} {key : Text} {interval : ℚ}
    (h : s.Answers minInterval c a key interval s') {origin : Text} {rules : RobotsRules}
    (hcache : s'.cache origin = some rules) :
    s.cache origin = some rules ∨
      (⟨c, a⟩ : Event Call.Answer) = ⟨.remember origin rules, ()⟩ := by
  cases h with
  | remember o found =>
      have hupdate : (s.remember o found).cache = Function.update s.cache o (some found) := rfl
      rw [hupdate] at hcache
      by_cases horigin : origin = o
      · subst horigin
        rw [Function.update_self] at hcache
        obtain rfl := Option.some.inj hcache
        exact .inr rfl
      · rw [Function.update_of_ne horigin] at hcache
        exact .inl hcache
  | _ => exact .inl hcache

theorem Answers.of_cached {c : Call} {a : c.Answer} {key : Text} {interval : ℚ}
    (h : s.Answers minInterval c a key interval s') {origin : Text} {rules : RobotsRules}
    (hevent : (⟨.cached origin, some rules⟩ : Event Call.Answer) = ⟨c, a⟩) :
    s.cache origin = some rules := by
  cases h with
  | cached o =>
      obtain ⟨hcall, hanswer⟩ := Event.mk.inj hevent
      obtain rfl := Call.cached.inj hcall
      exact (eq_of_heq hanswer).symm
  | _ => cases (Event.mk.inj hevent).1

/-- A request that goes out after an answer is backed by the call. -/
theorem Answers.backed {done : Trace} {c : Call} {next : c.Answer → Fetch FetchResponse}
    {a : c.Answer} {key : Text} {interval : ℚ}
    (h : s.Answers minInterval c a key interval s')
    (hobeys : Task.Obeys (Polite web policy) (fun _ _ => True) ⟨done ++ [⟨c, a⟩], next a⟩)
    {r : Request} (hr : r ∈ LeadPipe.requests (s'.sends key interval (next a))) :
    Backed web policy minInterval (done ++ [⟨c, a⟩]) r := by
  rcases sends_cases s' key interval (next a) with hnone | ⟨purpose, url, headers, more, hnext, hone⟩
  · rw [hnone] at hr
    cases hr
  · rw [hone] at hr
    obtain rfl : r = ⟨⟨key, s'.now, interval⟩, purpose, url⟩ := by
      simpa [LeadPipe.requests] using hr
    have hfuture := hobeys.future
    rw [hnext] at hfuture
    obtain ⟨before, host, delay, hdone, hhost, hrobots, hpage⟩ :=
      (hfuture (.failed (.transport []))).1.sent purpose url headers rfl
    obtain ⟨rfl, hevent⟩ := List.append_inj' hdone rfl
    obtain ⟨rfl, hanswer⟩ := Event.mk.inj (List.cons.inj hevent).1
    obtain ⟨rfl, rfl⟩ := h.wait
    exact ⟨done, delay, hdone ▸ List.prefix_refl _, hhost, rfl, hrobots, hpage⟩

theorem Moves.sound (h : s.Moves web policy minInterval s') (hs : s.Sound web policy minInterval) :
    s'.Sound web policy minInterval := by
  have hthrottled := h.throttled hs.throttled
  cases h with
  | stay => exact hs
  | pass span hspan => exact { hs with throttled := hthrottled }
  | enter i host => exact { hs with throttled := hthrottled }
  | get url headers =>
      have honward := Onward.append s.calls [⟨[], Fetcher.get web policy url headers⟩]
      refine ⟨fun t ht => ?_, fun origin rules hcache => ?_, fun origin rules hcached => ?_,
        fun r hr => Backed.onward honward (hs.requests r hr), hthrottled⟩
      · rcases List.mem_append.mp ht with ht | ht
        · exact hs.calls t ht
        · rw [List.mem_singleton.mp ht]
          exact .start (Polite.get url headers [])
      · exact honward.happened (hs.cache origin rules hcache)
      · obtain ⟨t, ht, hmem⟩ := hcached
        rcases List.mem_append.mp ht with ht | ht
        · exact honward.happened (hs.cached origin rules ⟨t, ht, hmem⟩)
        · rw [List.mem_singleton.mp ht] at hmem
          cases hmem
  | answer i done c next a key interval s₁ hcall hanswer =>
      have honward : Onward s.calls (s.calls.set i ⟨done ++ [⟨c, a⟩], next a⟩) :=
        Onward.set hcall (List.prefix_append _ _)
      have hcalls : (s₁.goOn i key interval ⟨done ++ [⟨c, a⟩], next a⟩).calls =
          s.calls.set i ⟨done ++ [⟨c, a⟩], next a⟩ := by
        rw [← hanswer.calls]
        rfl
      have hmoved : (⟨done ++ [⟨c, a⟩], next a⟩ : Getting) ∈
          s.calls.set i ⟨done ++ [⟨c, a⟩], next a⟩ :=
        List.mem_set (List.getElem?_eq_some_iff.mp hcall).1 _
      have hobeys := (hs.calls _ (List.mem_of_getElem? hcall)).answered a
      have hstored {origin : Text} {rules : RobotsRules} (hcache : s.cache origin = some rules) :=
        honward.happened (hs.cache origin rules hcache)
      refine ⟨?_, ?_, ?_, ?_, hthrottled⟩
      all_goals rw [hcalls]
      · intro t ht
        rcases List.mem_or_eq_of_mem_set ht with ht | rfl
        · exact hs.calls t ht
        · exact hobeys
      · intro origin rules hcache
        rcases hanswer.cache hcache with hcache | hevent
        · exact hstored hcache
        · exact ⟨_, hmoved, by simp [hevent]⟩
      · rintro origin rules ⟨t, ht, hmem⟩
        rcases List.mem_or_eq_of_mem_set ht with ht | rfl
        · exact honward.happened (hs.cached origin rules ⟨t, ht, hmem⟩)
        · rcases List.mem_append.mp hmem with hmem | hevent
          · exact honward.happened
              (hs.cached origin rules ⟨_, List.mem_of_getElem? hcall, hmem⟩)
          · exact hstored (hanswer.of_cached (List.mem_singleton.mp hevent))
      · intro r hr
        have hlog : (s₁.goOn i key interval ⟨done ++ [⟨c, a⟩], next a⟩).log =
            s₁.log ++ s₁.sends key interval (next a) := rfl
        rw [hlog, requests_append, hanswer.requests] at hr
        rcases List.mem_append.mp hr with hr | hr
        · exact Backed.onward honward (hs.requests r hr)
        · exact ⟨_, hmoved, hanswer.backed hobeys hr⟩

theorem start_sound (now : ℚ) : (start now).Sound web policy minInterval where
  calls := by simp [start]
  cache := nofun
  cached := by simp [start]
  requests := by simp [start, LeadPipe.requests]
  throttled := Throttle.Keeps.start _ _ fun _ => rfl

theorem run_sound (now : ℚ) (labels : List Label) :
    (execute (step web policy minInterval) (start now) labels).Sound web policy minInterval :=
  execute_invariant (start_sound now) (fun _ l hs => (step_moves l).sound hs) labels

end Fetcher

variable (web policy)

def isTo (host : Text) (r : Request) : Bool :=
  match hostOf web r.url with
  | .ok found => found == host
  | .error _ => false

def requestsAfter (origin : Text) (log : List LogEntry) : List Request :=
  requests (log.dropWhile fun e => e ≠ .loaded origin)

/-- Each request to the host goes out this much later than the one before, or more. -/
def Apart (host : Text) (gap : ℚ) (rs : List Request) : Prop :=
  (rs.filter (isTo web host)).IsChain fun a b => a.time + gap ≤ b.time

/-- The host is served by the origin. -/
def ServedBy (host origin : Text) (s : Fetcher) : Prop :=
  ∀ r ∈ requests s.log, isTo web host r = true → RobotsCache.origin web r.url = .ok origin

/-- What requests for `robots.txt` were answered with. -/
def robotsReplies (url : Text) (h : Trace) : List Reply :=
  h.filterMap fun
    | ⟨.request .robots requested _, reply⟩ => if requested = url then some reply else none
    | _ => none

/-- The `robots.txt` of the origin has had this delay each time. -/
def Publishing (origin : Text) (delay : Nat) (s : Fetcher) : Prop :=
  ∀ t ∈ s.calls, ∀ reply ∈ robotsReplies (RobotsCache.robotsUrl origin) t.done,
    publishes web policy origin delay reply = true

/-- After it was first loaded it is not requested again. -/
def NotRefreshed (host origin : Text) (s : Fetcher) : Prop :=
  ∀ r ∈ requestsAfter origin s.log, isTo web host r = true → r.purpose = .page

variable {web policy}

theorem isTo_iff {host : Text} {r : Request} : isTo web host r = true ↔ hostOf web r.url = .ok host := by
  unfold isTo
  cases hostOf web r.url with
  | ok found => simp
  | error e => simp

theorem requestsAfter_suffix (origin : Text) (log : List LogEntry) :
    requestsAfter origin log <:+ requests log :=
  (List.dropWhile_suffix _).filterMap _

theorem mem_robotsReplies {url : Text} {headers : Dict Text} {reply : Reply} {h : Trace}
    (hmem : exchanged .robots url headers reply ∈ h) : reply ∈ robotsReplies url h :=
  List.mem_filterMap.mpr ⟨_, hmem, if_pos rfl⟩

namespace Fetcher.Sound

variable {s : Fetcher} (hs : s.Sound web policy minInterval)

include hs

theorem isTo_key {r : Request} (hr : r ∈ LeadPipe.requests s.log) (host : Text) :
    isTo web host r = decide (r.key = host) := by
  obtain ⟨t, -, before, delay, -, hhost, -⟩ := hs.requests r hr
  rw [Bool.eq_iff_iff, isTo_iff, hhost]
  simp

theorem spaced (host origin : Text) :
    ((requestsAfter origin s.log).filter (isTo web host)).IsChain
      fun a b => a.toPassage.Spaced b.toPassage := by
  have hsuffix := requestsAfter_suffix origin s.log
  have hkeys : (requestsAfter origin s.log).filter (isTo web host) =
      (requestsAfter origin s.log).filter fun r => r.key = host :=
    List.filter_congr fun r hr => hs.isTo_key (hsuffix.subset hr) host
  have hall : (through host (passages s.log)).IsChain Passage.Spaced := hs.throttled.spaced host
  have hmap : through host (passages s.log) =
      ((LeadPipe.requests s.log).filter fun r => r.key = host).map Request.toPassage :=
    List.filter_map ..
  rw [hmap, List.isChain_map] at hall
  rw [hkeys]
  exact hall.suffix (hsuffix.filter _)

/-- The rules of a page of the origin have the delay that is published. -/
theorem informed (hrespect : policy.respectRobots = true) {origin : Text} {delay : Nat}
    (hpublishing : Publishing web policy origin delay s) {t : Getting} (ht : t ∈ s.calls)
    {before : Trace} (hbefore : before <+: t.done) {url : Text}
    (horigin : RobotsCache.origin web url = .ok origin) {found : Option Nat}
    (hinformed : Informed web policy before url found) : found = some delay := by
  have hloaded {u : Getting} (hu : u ∈ s.calls) {h : Trace} (hh : h <+: u.done)
      {rules : RobotsRules} (hl : Loaded web policy h origin rules) :
      rules.crawlDelay web policy.userAgent = RobotsRules.floatDelay (some delay) := by
    obtain ⟨reply, hmem, hdelay⟩ := hl
    exact hdelay delay (hpublishing u hu reply (mem_robotsReplies (hh.subset hmem)))
  obtain ⟨rules, ⟨o, ho, hsource⟩, hdelay⟩ := hinformed hrespect
  rw [horigin] at ho
  obtain rfl := Except.ok.inj ho
  have hknown : rules.crawlDelay web policy.userAgent = RobotsRules.floatDelay (some delay) := by
    rcases hsource with hcached | hl
    · obtain ⟨u, hu, hstored⟩ := hs.cached origin rules ⟨t, ht, hbefore.subset hcached⟩
      obtain ⟨earlier, later, hdone⟩ := List.append_of_mem hstored
      have hl := ((hs.calls u hu).past earlier _ later hdone).stored origin rules rfl
      exact hloaded hu (hdone ▸ List.prefix_append _ _) hl
    · exact hloaded ht hbefore hl
  rw [hknown] at hdelay
  exact RobotsRules.floatDelay_ok hdelay

end Fetcher.Sound

/-- Requests to a host that is served by one origin are as far apart as the delay that its
`robots.txt` publishes asks for, and as the interval of the policy, unless `robots.txt` is
requested again and its delay is the longer of the two. -/
theorem crawl_delay_is_kept (web : Web) (policy : FetchPolicy) (minInterval : ℚ)
    (hrespect : policy.respectRobots = true) (host origin : Text) (delay : Nat) (now : ℚ)
    (labels : List Fetcher.Label) {s : Fetcher}
    (hrun : s = execute (Fetcher.step web policy minInterval) (Fetcher.start now) labels)
    (hserved : ServedBy web host origin s) (hpublishing : Publishing web policy origin delay s)
    (hrefresh : (delay : ℚ) ≤ minInterval ∨ NotRefreshed web host origin s) :
    Apart web host (max minInterval delay) (requestsAfter origin s.log) := by
  have hs : s.Sound web policy minInterval := by
    rw [hrun]
    exact Fetcher.run_sound now labels
  have hinterval : ∀ r ∈ (requestsAfter origin s.log).filter (isTo web host),
      r.interval = max minInterval delay := by
    intro r hr
    obtain ⟨hmem, hto⟩ := List.mem_filter.mp hr
    have hlogged := (requestsAfter_suffix origin s.log).subset hmem
    obtain ⟨t, ht, before, asked, hbefore, -, hasked, hrobots, hpage⟩ := hs.requests r hlogged
    rw [hasked, throttleInterval]
    cases hpurpose : r.purpose with
    | page =>
        have hhere : before <+: t.done := (List.prefix_append before _).trans hbefore
        rw [hs.informed hrespect hpublishing ht hhere (hserved r hlogged hto) (hpage hpurpose)]
        rfl
    | robots =>
        rcases hrefresh with hle | hnone
        · have hzero : (0 : ℚ) ≤ minInterval := (Nat.cast_nonneg delay).trans hle
          rw [hrobots hpurpose, max_eq_left hle]
          exact max_eq_left (by simpa using hzero)
        · rw [hnone r hmem hto] at hpurpose
          cases hpurpose
  apply (hs.spaced host origin).imp_of_mem_imp
  intro a b ha hb hspaced
  by_cases hpos : 0 < max minInterval (delay : ℚ)
  · have hfar := hspaced.2 (by rwa [hinterval a ha]) (by rwa [hinterval b hb])
    rwa [hinterval a ha] at hfar
  · have hnonpos : max minInterval (delay : ℚ) ≤ 0 := not_lt.mp hpos
    exact (add_le_of_nonpos_right hnonpos).trans hspaced.1

private def slowSite : Web :=
  { Web.plain with
    robotsDelay := fun lines _ =>
      .ok (if lines.contains "Crawl-delay: 10".toList then some 10 else none) }

private def slowRobots : Reply :=
  .answered (.of "http://a.fi/robots.txt".toList 200 [] "User-agent: *\nCrawl-delay: 10\n")

private def firstVisit : List Fetcher.Label :=
  [.get "http://a.fi/x".toList [], .act 0, .act 0, .enter 0, .leave 0, .reply 0 slowRobots,
    .act 0, .act 0, .act 0, .enter 0, .pass 1, .leave 0,
    .reply 0 (.answered (.of "http://a.fi/x".toList 200 [] ""))]

private def nextVisit : List Fetcher.Label :=
  [.get "http://a.fi/y".toList [], .act 1, .act 1, .act 1, .act 1, .enter 1, .pass 10, .leave 1]

private def lateVisit : List Fetcher.Label :=
  [.pass 3700, .get "http://a.fi/y".toList [], .act 1, .act 1, .act 1, .enter 1, .leave 1,
    .reply 1 slowRobots, .act 1, .act 1, .act 1, .enter 1, .pass 1, .leave 1]

private def visited (labels : List Fetcher.Label) : Fetcher :=
  execute (Fetcher.step slowSite .default 1) (Fetcher.start 0) labels

private theorem visited_served {labels : List Fetcher.Label}
    (h : (requests (visited labels).log).all fun r =>
      (RobotsCache.origin slowSite r.url).toOption == some "http://a.fi".toList) :
    ServedBy slowSite "a.fi".toList "http://a.fi".toList (visited labels) := by
  intro r hr _
  have hfound := eq_of_beq (List.all_eq_true.mp h r hr)
  cases horigin : RobotsCache.origin slowSite r.url with
  | error e =>
      rw [horigin] at hfound
      cases hfound
  | ok origin =>
      rw [horigin] at hfound
      rw [Option.some.inj hfound]

theorem crawl_delay_is_kept_next :
    (requestsAfter "http://a.fi".toList (visited (firstVisit ++ nextVisit)).log).length = 2 ∧
      Apart slowSite "a.fi".toList (max 1 (10 : Nat))
        (requestsAfter "http://a.fi".toList (visited (firstVisit ++ nextVisit)).log) := by
  constructor
  · decide +kernel
  · exact crawl_delay_is_kept slowSite .default 1 rfl _ _ 10 0 (firstVisit ++ nextVisit) rfl
      (visited_served (by decide +kernel)) (by unfold Publishing; decide +kernel)
      (.inr (by unfold NotRefreshed; decide +kernel))

/-- `robots.txt` is requested again without its delay, and the page follows after the interval of
the policy. -/
theorem crawl_delay_is_lost :
    ¬∀ (web : Web) (policy : FetchPolicy) (minInterval : ℚ), policy.respectRobots = true →
      ∀ (host origin : Text) (delay : Nat) (now : ℚ) (labels : List Fetcher.Label) (s : Fetcher),
        s = execute (Fetcher.step web policy minInterval) (Fetcher.start now) labels →
          ServedBy web host origin s → Publishing web policy origin delay s →
            Apart web host (max minInterval delay) (requestsAfter origin s.log) := by
  intro h
  have hkept := h slowSite .default 1 rfl "a.fi".toList "http://a.fi".toList 10 0
    (firstVisit ++ lateVisit) (visited (firstVisit ++ lateVisit)) rfl
    (visited_served (by decide +kernel)) (by unfold Publishing; decide +kernel)
  exact absurd hkept (by unfold Apart; decide +kernel)

end LeadPipe
