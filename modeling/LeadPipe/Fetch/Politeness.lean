import LeadPipe.Fetch.Limits
import LeadPipe.Fetch.Vetting

/-!
# The delays a fetcher waits for

What every call of `get` sees to by itself: that it waits for the throttle before each request, for
a page with the delay of the rules it went by, for `robots.txt` with none; and that the rules it
goes by are those of the cache or what it made of `robots.txt` itself.
-/

namespace LeadPipe

open Framework Urllib

variable (web : Web) (policy : FetchPolicy)

/-- The reply is a `robots.txt` with this delay. -/
def publishes (origin : Text) (delay : Nat) (reply : Reply) : Bool :=
  match readReply web policy (RobotsCache.robotsUrl origin) reply with
  | .ok response => response.statusCode < 400 &&
      (match web.robotsDelay (Text.splitlines [] response.text) policy.userAgent with
        | .ok found => found == some delay
        | .error _ => false)
  | .error _ => false

def Loaded (h : Trace) (origin : Text) (rules : RobotsRules) : Prop :=
  ∃ reply, exchanged .robots (RobotsCache.robotsUrl origin) [] reply ∈ h ∧
    ∀ delay, publishes web policy origin delay reply = true →
      rules.crawlDelay web policy.userAgent = RobotsRules.floatDelay (some delay)

def RulesOf (h : Trace) (url : Text) (rules : RobotsRules) : Prop :=
  ∃ origin, RobotsCache.origin web url = .ok origin ∧
    (⟨.cached origin, some rules⟩ ∈ h ∨ Loaded web policy h origin rules)

def Informed (h : Trace) (url : Text) (delay : Option Nat) : Prop :=
  policy.respectRobots = true → ∃ rules, RulesOf web policy h url rules ∧
    rules.crawlDelay web policy.userAgent = .ok delay

/-- What is true of a call when it is made. -/
structure Polite (h : Trace) (e : Event Call.Answer) : Prop where
  sent : ∀ purpose url headers, e.call = .request purpose url headers →
    ∃ before host delay, h = before ++ [⟨.wait host delay, ()⟩] ∧ hostOf web url = .ok host ∧
      (purpose = .robots → delay = none) ∧
        (purpose = .page → Informed web policy before url delay)
  stored : ∀ origin rules, e.call = .remember origin rules → Loaded web policy h origin rules

variable {web policy} {h h' : Trace} {url : Text}

theorem publishes_iff {origin : Text} {delay : Nat} {reply : Reply} :
    publishes web policy origin delay reply = true ↔
      ∃ response, readReply web policy (RobotsCache.robotsUrl origin) reply = .ok response ∧
        response.statusCode < 400 ∧
          web.robotsDelay (Text.splitlines [] response.text) policy.userAgent =
            .ok (some delay) := by
  unfold publishes
  cases readReply web policy (RobotsCache.robotsUrl origin) reply with
  | error e => simp
  | ok response =>
      cases hdelay : web.robotsDelay (Text.splitlines [] response.text) policy.userAgent with
      | error message => simp [hdelay]
      | ok found => simp [hdelay]

theorem Loaded.later {origin : Text} {rules : RobotsRules} (hl : Loaded web policy h origin rules)
    (hh : h <+: h') : Loaded web policy h' origin rules := by
  obtain ⟨reply, hmem, hdelay⟩ := hl
  exact ⟨reply, hh.subset hmem, hdelay⟩

theorem RulesOf.later {rules : RobotsRules} (hr : RulesOf web policy h url rules)
    (hh : h <+: h') : RulesOf web policy h' url rules := by
  obtain ⟨origin, horigin, hsource⟩ := hr
  exact ⟨origin, horigin, hsource.imp (fun hmem => hh.subset hmem) fun hl => hl.later hh⟩

theorem Informed.later {delay : Option Nat} (hi : Informed web policy h url delay)
    (hh : h <+: h') : Informed web policy h' url delay := by
  intro hrespect
  obtain ⟨rules, hrules, hdelay⟩ := hi hrespect
  exact ⟨rules, hrules.later hh, hdelay⟩

/-- Only requests and what is remembered need a reason. -/
def Call.isPlain : Call → Bool
  | .request .. | .remember .. => false
  | _ => true

namespace Polite

theorem plain {c : Call} (hc : c.isPlain = true) (a : c.Answer) : Polite web policy h ⟨c, a⟩ := by
  cases c with
  | request => cases hc
  | remember => cases hc
  | cached | clock | wait | sleep | note => exact ⟨nofun, nofun⟩

theorem call {α : Type} {c : Call} {f : c.Answer → Fetch α} {post : Trace → Except Raised α → Prop}
    (hc : c.isPlain = true)
    (hf : ∀ a, Dialogue.Ensures (Polite web policy) post (f a) (h ++ [⟨c, a⟩])) :
    Dialogue.Ensures (Polite web policy) post (Dialogue.ask c >>= f) h :=
  fun a => ⟨plain hc a, hf a⟩

theorem ensureSafeUrl (url : Text) :
    Dialogue.Ensures (Polite web policy)
      (fun _ out => Dialogue.Outcome
        (fun target => safeUrl web policy target = .ok target) (fun _ => True) out)
      (ensureSafeUrl web policy url) h := by
  unfold LeadPipe.ensureSafeUrl
  apply Dialogue.Ensures.lift_bind
  cases hs : safeUrl web policy url with
  | error e => trivial
  | ok target =>
      obtain ⟨rfl, -⟩ := safeUrl_ok.mp hs
      exact call (by rfl) fun _ => hs

theorem fetchRobots {origin host : Text}
    (hhost : hostOf web (RobotsCache.robotsUrl origin) = .ok host) :
    Dialogue.Ensures (Polite web policy)
      (fun h' out => ∃ reply, exchanged .robots (RobotsCache.robotsUrl origin) [] reply ∈ h' ∧
        out = (readReply web policy (RobotsCache.robotsUrl origin) reply).map
          fun response => (response.statusCode, response.text))
      (fetchRobots web policy (RobotsCache.robotsUrl origin)) h := by
  unfold LeadPipe.fetchRobots
  rw [hhost]
  apply call (by rfl)
  intro u reply
  refine ⟨⟨?_, nofun⟩, ?_⟩
  · rintro purpose url headers ⟨⟩
    exact ⟨h, host, none, rfl, hhost, fun _ => rfl, nofun⟩
  · apply Dialogue.Ensures.lift_bind
    cases hread : readReply web policy (RobotsCache.robotsUrl origin) reply with
    | error e => exact ⟨reply, by simp [exchanged], by rw [hread]; rfl⟩
    | ok response => exact ⟨reply, by simp [exchanged], by rw [hread]; rfl⟩

theorem now {α : Type} {f : Instant → α} {post : Trace → Except Raised α → Prop}
    (hpost : ∀ now, post (h ++ [⟨.clock, now⟩]) (.ok (f now))) :
    Dialogue.Ensures (Polite web policy) post (Fetch.now >>= fun now => pure (f now)) h :=
  call (by rfl) hpost

theorem load {origin host : Text}
    (hhost : hostOf web (RobotsCache.robotsUrl origin) = .ok host) :
    Dialogue.Ensures (Polite web policy)
      (fun h' out => Dialogue.Outcome (Loaded web policy h' origin) (fun _ => True) out)
      (RobotsCache.load web (LeadPipe.fetchRobots web policy) origin) h := by
  unfold RobotsCache.load
  apply (fetchRobots hhost).attempt.seq
  · rintro h₁ - - ⟨out, ⟨⟩, reply, hmem, rfl⟩
    -- what is made of the reply is told when the clock has been read
    have hloaded {rules : Instant → RobotsRules}
        (hdelay : ∀ t delay, publishes web policy origin delay reply = true →
          (rules t).crawlDelay web policy.userAgent = RobotsRules.floatDelay (some delay)) :
        Dialogue.Ensures (Polite web policy)
          (fun h' out => Dialogue.Outcome (Loaded web policy h' origin) (fun _ => True) out)
          (Fetch.now >>= fun t => pure (rules t)) h₁ :=
      now fun t => ⟨reply, List.mem_append_left _ hmem, hdelay t⟩
    cases hread : readReply web policy (RobotsCache.robotsUrl origin) reply with
    | error e =>
        apply hloaded
        intro t delay hpublishes
        obtain ⟨response, hok, -⟩ := publishes_iff.mp hpublishes
        rw [hread] at hok
        cases hok
    | ok response =>
        have hpublished {delay : Nat} (hp : publishes web policy origin delay reply = true) :
            response.statusCode < 400 ∧
              web.robotsDelay (Text.splitlines [] response.text) policy.userAgent =
                .ok (some delay) := by
          obtain ⟨found, hok, hfound⟩ := publishes_iff.mp hp
          obtain rfl := Except.ok.inj (hread.symm.trans hok)
          exact hfound
        change Dialogue.Ensures (Polite web policy) _
          (if response.statusCode ≥ 500 then _ else if response.statusCode ≥ 400 then _ else _) h₁
        split
        · apply hloaded
          intro t delay hp
          have hlow := (hpublished hp).1
          omega
        · split
          · apply hloaded
            intro t delay hp
            have hlow := (hpublished hp).1
            omega
          · apply Dialogue.Ensures.lift_bind
            cases web.robotsParse (Text.splitlines [] response.text) with
            | error message => trivial
            | ok u =>
                apply hloaded
                intro t delay hp
                exact RobotsRules.crawlDelay_parsed web (hpublished hp).2 _ _ t
  · rintro h₁ e - ⟨out, ⟨⟩, -⟩

theorem robotsUrl_hostOf {origin : Text} (hs : safeUrl web policy url = .ok url)
    (ho : RobotsCache.origin web url = .ok origin) :
    ∃ host, hostOf web (RobotsCache.robotsUrl origin) = .ok host := by
  obtain ⟨parts, -, hsplit, -, -⟩ := robotsUrl_host hs ho
  refine ⟨(parts.hostname web.platform.unicode).getD [], ?_⟩
  unfold hostOf
  rw [hsplit]
  rfl

theorem rulesFor (hs : safeUrl web policy url = .ok url) :
    Dialogue.Ensures (Polite web policy)
      (fun h' out => Dialogue.Outcome (RulesOf web policy h' url) (fun _ => True) out)
      (RobotsCache.rulesFor web policy (LeadPipe.fetchRobots web policy) url) h := by
  obtain ⟨origin, ho⟩ := origin_ok hs
  obtain ⟨host, hhost⟩ := robotsUrl_hostOf hs ho
  unfold RobotsCache.rulesFor
  rw [ho]
  apply call (by rfl)
  intro entry
  have hload (h₁ : Trace) : Dialogue.Ensures (Polite web policy)
      (fun h' out => Dialogue.Outcome (RulesOf web policy h' url) (fun _ => True) out)
      (RobotsCache.load web (LeadPipe.fetchRobots web policy) origin >>= fun rules =>
        Fetch.remember origin rules >>= fun _ => pure rules) h₁ := by
    apply (load hhost).seq
    · intro h₂ rules _ hloaded u
      refine ⟨⟨nofun, ?_⟩, origin, ho, .inr (hloaded.later (List.prefix_append _ _))⟩
      rintro _ _ ⟨⟩
      exact hloaded
    · exact fun _ _ _ _ => trivial
  cases entry with
  | none => exact hload _
  | some rules =>
      apply Dialogue.Ensures.bind
      apply now
      intro t
      by_cases hfresh : t - rules.fetchedAt < policy.robotsTtl
      · rw [if_pos hfresh]
        exact ⟨origin, ho, .inl (by simp)⟩
      · rw [if_neg hfresh]
        exact hload _

theorem checkRobots (hs : safeUrl web policy url = .ok url) :
    Dialogue.Ensures (Polite web policy)
      (fun h' out => Dialogue.Outcome (Informed web policy h' url) (fun _ => True) out)
      (checkRobots web policy url) h := by
  unfold LeadPipe.checkRobots
  split
  · rename_i hoff
    intro hrespect
    rw [hrespect] at hoff
    cases hoff
  · apply (rulesFor hs).seq
    · intro h₁ rules _ hrules
      apply call (by rfl)
      intro u
      apply Dialogue.Ensures.lift_bind
      cases rules.allows web url policy.userAgent with
      | error e => trivial
      | ok allowed =>
          cases allowed with
          | false => trivial
          | true =>
              apply Dialogue.Ensures.lift
              cases hdelay : rules.crawlDelay web policy.userAgent with
              | error e => trivial
              | ok delay =>
                  exact fun _ => ⟨rules, hrules.later (List.prefix_append _ _), hdelay⟩
    · exact fun _ _ _ _ => trivial

theorem read {host : Text} {delay : Option Nat} {headers : Dict Text}
    (hhost : hostOf web url = .ok host) (hi : Informed web policy h url delay) :
    Dialogue.Ensures (Polite web policy) (fun _ _ => True) (read web policy .page url headers)
      (h ++ [⟨.wait host delay, ()⟩]) := by
  unfold LeadPipe.read
  intro reply
  refine ⟨⟨?_, nofun⟩, Dialogue.Ensures.lift trivial⟩
  rintro purpose target sent ⟨⟩
  exact ⟨h, host, delay, rfl, hhost, nofun, fun _ => hi⟩

theorem pause (left attempt : Nat) :
    Dialogue.Ensures (Polite web policy) (fun _ _ => True) (pause left attempt) h := by
  unfold LeadPipe.pause
  split
  · apply Dialogue.Ensures.lift_bind
    cases backoff attempt with
    | error e => trivial
    | ok u => exact fun _ => ⟨plain rfl _, trivial⟩
  · trivial

theorem request {delay : Option Nat} (hi : Informed web policy h url delay) (headers : Dict Text)
    (left attempt : Nat) (last : Option Text) :
    Dialogue.Ensures (Polite web policy) (fun _ _ => True)
      (request web policy url headers delay left attempt last) h := by
  induction left generalizing h attempt last with
  | zero => trivial
  | succ left ih =>
      unfold LeadPipe.request
      apply Dialogue.Ensures.lift_bind
      cases hhost : hostOf web url with
      | error e => trivial
      | ok host =>
          apply call (by rfl)
          intro u
          apply (read hhost hi).attempt.seq
          · intro h₁ tried hlonger _
            have hlater := (List.prefix_append h _).trans hlonger
            apply Dialogue.Ensures.lift_bind
            cases verdict url tried with
            | error e => trivial
            | ok outcome =>
                cases outcome with
                | inl response => trivial
                | inr reason =>
                    apply (pause left attempt).seq
                    · intro h₂ u hlonger₂ _
                      exact ih (hi.later (hlater.trans hlonger₂)) (attempt + 1) (some reason)
                    · exact fun _ _ _ _ => trivial
          · exact fun _ _ _ _ => trivial

theorem hop {current : Text} {delay : Option Nat} (hi : Informed web policy h current delay)
    (headers : Dict Text) {follow : Text → Fetch FetchResponse}
    (hfollow : ∀ h' location, Dialogue.Ensures (Polite web policy) (fun _ _ => True)
      (follow location) h') :
    Dialogue.Ensures (Polite web policy) (fun _ _ => True)
      (hop web policy headers current delay follow) h := by
  unfold LeadPipe.hop
  apply (request hi headers _ _ _).seq
  · intro h₁ response _ _
    split
    · trivial
    · dsimp only
      split
      · trivial
      · exact hfollow h₁ _
  · exact fun _ _ _ _ => trivial

theorem getWithRedirects (start : Text) (headers : Dict Text) (left : Nat) {current : Text}
    {delay : Option Nat} (hi : Informed web policy h current delay) :
    Dialogue.Ensures (Polite web policy) (fun _ _ => True)
      (getWithRedirects web policy start headers left current delay) h := by
  induction left generalizing h current delay with
  | zero => exact hop hi headers fun _ _ => trivial
  | succ left ih =>
      apply hop hi headers
      intro h₁ location
      apply Dialogue.Ensures.lift_bind
      cases joinUrl web current location with
      | error e => trivial
      | ok joined =>
          apply (ensureSafeUrl joined).seq
          · intro h₂ target _ hs
            apply (checkRobots hs).seq
            · exact fun h₃ delay _ hi => ih hi
            · exact fun _ _ _ _ => trivial
          · exact fun _ _ _ _ => trivial

theorem get (url : Text) (headers : Dict Text) (h : Trace) :
    Dialogue.Ensures (Polite web policy) (fun _ _ => True) (Fetcher.get web policy url headers)
      h := by
  unfold Fetcher.get
  apply (ensureSafeUrl url).seq
  · intro h₁ target _ hs
    apply (checkRobots hs).seq
    · exact fun h₂ delay _ hi => getWithRedirects target headers _ hi
    · exact fun _ _ _ _ => trivial
  · exact fun _ _ _ _ => trivial

end Polite

end LeadPipe
