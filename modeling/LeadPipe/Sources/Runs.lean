import LeadPipe.Fetch.Runs
import LeadPipe.Sources.Html

/-!
# The runs of an adapter

What an adapter requests while it collects, and what comes out of it, whatever the servers answer.
`Walk` is what leads from page to page, `Orderly` that nothing on the way raises what the adapter
does not catch; both only speak of pages that were read.
-/

namespace LeadPipe

open Framework Urllib

variable {web : Web} {policy : FetchPolicy} {headers : Dict Text} {may : Trace → Text → Prop}
  {h h' : Trace} {url : Text}

/-- In an orderly run the exception is a `SourceError`. -/
def Reported (orderly : Trace → Prop) (h : Trace) (e : Raised) : Prop :=
  orderly h → ∃ message, e = .source message

theorem Reported.of_source {orderly : Trace → Prop} (message : Text) :
    Reported orderly h (.source message) :=
  fun _ => ⟨message, rfl⟩

theorem loadPage_ensures (hmay : Reach web may) (hm : may h url) (name : Text) :
    Dialogue.Ensures (Sanctioned web policy headers may)
      (fun h' out => Dialogue.Outcome (fun _ => True)
        (fun e => Readable web policy url → Reported (Orderly web policy) h' e) out)
      (loadPage web policy name url headers) h := by
  unfold loadPage
  apply (get_ensures headers h hmay hm).attempt.seq
  · rintro h₁ - - ⟨e | response, ⟨⟩, -, hout⟩
    · cases e with
      | fetch e => exact fun _ => Reported.of_source _
      | source m =>
          intro hreadable horderly
          obtain ⟨f, ⟨⟩⟩ := hout hreadable horderly
      | transport m =>
          intro hreadable horderly
          obtain ⟨f, ⟨⟩⟩ := hout hreadable horderly
      | other m =>
          intro hreadable horderly
          obtain ⟨f, ⟨⟩⟩ := hout hreadable horderly
    · dsimp only
      split
      · exact fun _ => Reported.of_source _
      · trivial
  · rintro h₁ e - ⟨out, ⟨⟩, -⟩

theorem Unmarked.loadPage (web : Web) (policy : FetchPolicy) (name url : Text)
    (headers : Dict Text) : Unmarked (LeadPipe.loadPage web policy name url headers) := by
  unfold LeadPipe.loadPage
  apply (Dialogue.Only.attempt (Unmarked.get web policy url headers)).bind
  intro tried
  cases tried with
  | error e =>
      cases e with
      | fetch | source | transport | other => trivial
  | ok response =>
      dsimp only
      split
      · trivial
      · trivial

namespace Json

/-- A value inside a value. -/
inductive Part : Json → Json → Prop
  | refl (v : Json) : Part v v
  | item {part v : Json} {items : List Json} : v ∈ items → Part part v → Part part (arr items)
  | member {part v : Json} {name : Text} {members : List (Text × Json)} :
      (name, v) ∈ members → Part part v → Part part (obj members)

theorem Part.trans {a b c : Json} (hab : Part a b) (hbc : Part b c) : Part a c := by
  induction hbc with
  | refl => exact hab
  | item hmem _ ih => exact .item hmem ih
  | member hmem _ ih => exact .member hmem ih

theorem member_part {part : Text} {value found : Json} (h : value.member part = some found) :
    Part found value := by
  cases value with
  | obj members =>
      unfold member at h
      dsimp only at h
      cases hget : Dict.get members part with
      | none =>
          rw [hget] at h
          cases h
      | some v =>
          rw [hget] at h
          obtain rfl : v = found := by
            cases v with
            | null => cases h
            | _ => exact Option.some.inj h
          obtain ⟨p, hfind, rfl⟩ := Option.map_eq_some_iff.mp hget
          exact .member (List.mem_of_find?_eq_some hfind) (.refl _)
  | null | bool | number | str | arr => cases h

theorem dig_part {payload found : Json} {path : Text} (h : payload.dig path = some found) :
    Part found payload := by
  unfold dig at h
  generalize path.splitOn '.' = parts at h
  induction parts generalizing payload with
  | nil =>
      obtain rfl := Option.some.inj h
      exact .refl _
  | cons part parts ih =>
      rw [List.foldlM_cons] at h
      obtain ⟨next, hnext, hrest⟩ := Option.bind_eq_some_iff.mp h
      exact (ih hrest).trans (member_part hnext)

end Json

theorem withParam_text {parts : SplitResult} (hsplit : splitUrl web url = .ok parts)
    (param : Text) {value : Int} {s : Text} (hs : strInt value = .ok s) :
    withParam web url param value = .ok (replaceParam parts param s) := by
  unfold withParam
  rw [hsplit, hs]
  rfl

theorem withParam_ok {param target : Text} {value : Int} {parts : SplitResult}
    (hsplit : splitUrl web url = .ok parts) (h : withParam web url param value = .ok target) :
    ∃ parts', splitUrl web target = .ok parts' ∧ parts'.scheme = parts.scheme ∧
      parts'.netloc = parts.netloc := by
  unfold withParam at h
  rw [hsplit] at h
  change (strInt value).bind _ = _ at h
  cases hvalue : strInt value with
  | error e =>
      rw [hvalue] at h
      cases h
  | ok text =>
      rw [hvalue] at h
      obtain rfl := Except.ok.inj h
      obtain ⟨parts', hparts', heq⟩ := urlsplit_requeried (splitUrl_ok.mp hsplit)
        fun c hc => (queryChar_plain (urlencode_safe hc)).2
      exact ⟨parts', splitUrl_ok.mpr hparts', heq⟩

theorem readable_congr {target : Text} {parts parts' : SplitResult}
    (hsplit : splitUrl web url = .ok parts) (hsplit' : splitUrl web target = .ok parts')
    (hscheme : parts'.scheme = parts.scheme) (hnetloc : parts'.netloc = parts.netloc)
    (hr : Readable web policy url) : Readable web policy target := by
  obtain ⟨found, hfound, hresolver⟩ := hr
  obtain rfl := Option.some.inj ((splitUrl_ok.mp hsplit).symm.trans hfound)
  refine ⟨parts', splitUrl_ok.mp hsplit', fun hallowed hprivate host hhost => ?_⟩
  rw [hscheme] at hallowed
  rw [hostname_congr hnetloc] at hhost
  exact hresolver hallowed hprivate host hhost

namespace ApiSource

variable (web policy) (source : ApiSource)

def Link (payload : Json) (link : Text) : Prop :=
  Text.truthy source.options.nextPath = true ∧
    ∃ follow, payload.dig (source.options.nextPath.getD []) = some follow ∧
      follow.truthy = true ∧ strOf web follow = .ok link

def Numbered : Prop :=
  Text.truthy source.options.nextPath = false ∧ Text.truthy source.options.pageParam = true

/-- Nothing raises but what the adapter turns into a `SourceError`. -/
structure Orderly (h : Trace) : Prop where
  fetch : LeadPipe.Orderly web policy h
  start : Readable web policy source.options.url
  startPage : source.options.pageParam.isSome → ∃ s, strInt source.options.startPage = .ok s
  bodies : ∀ url text, marked (.listed url text) ∈ h →
    ∀ message, web.loads text ≠ .error (.other message)
  values : ∀ url text payload, marked (.listed url text) ∈ h → web.loads text = .ok payload →
    ∀ part, part.Part payload → ∃ s, web.repr part = .ok s
  links : ∀ url text payload link, marked (.listed url text) ∈ h → web.loads text = .ok payload →
    source.Link web payload link → ∃ target,
      urljoin web.platform.unicode web.platform.isIPv6 url link = some target ∧
        Readable web policy target
  numbers : ∀ url text page, marked (.listed url text) ∈ h → source.Numbered →
    paramValue web url (source.options.pageParam.getD []) source.options.startPage = .ok page →
      ∃ s, strInt (page + 1) = .ok s

/-- What may be requested for a page: the first page, what a page leads to, and redirects. -/
structure Walk (may : Trace → Text → Prop) : Prop extends Reach web may where
  first : ∀ {url}, source.firstUrl web = .ok url → may [] url
  next : ∀ {h url text payload count target}, may h url → marked (.listed url text) ∈ h →
    web.loads text = .ok payload → source.nextUrl web payload url count = .ok (some target) →
      may h target

variable {web policy source}

theorem Orderly.earlier (ho : source.Orderly web policy h') (hh : h <+: h') :
    source.Orderly web policy h where
  fetch := ho.fetch.within hh.subset
  start := ho.start
  startPage := ho.startPage
  bodies url text hmem := ho.bodies url text (hh.subset hmem)
  values url text payload hmem := ho.values url text payload (hh.subset hmem)
  links url text payload link hmem := ho.links url text payload link (hh.subset hmem)
  numbers url text page hmem := ho.numbers url text page (hh.subset hmem)

/-- The first page is as readable as the configured address. -/
theorem firstUrl_readable (ho : source.Orderly web policy h) :
    ∃ first, source.firstUrl web = .ok first ∧ Readable web policy first := by
  unfold firstUrl
  cases hparam : source.options.pageParam with
  | none => exact ⟨_, rfl, ho.start⟩
  | some param =>
      obtain ⟨s, hs⟩ := ho.startPage (by rw [hparam]; rfl)
      obtain ⟨parts, hsplit, -⟩ := ho.start
      have hfirst := withParam_text (splitUrl_ok.mpr hsplit) param hs
      obtain ⟨parts', hsplit', hscheme, hnetloc⟩ := withParam_ok (splitUrl_ok.mpr hsplit) hfirst
      exact ⟨_, hfirst, readable_congr (splitUrl_ok.mpr hsplit) hsplit' hscheme hnetloc ho.start⟩

theorem load_ensures (hmay : Reach web may) (hm : may h url) :
    Dialogue.Ensures (Sanctioned web policy source.options.headers may)
      (fun h' out => Dialogue.Outcome
        (fun payload => ∃ text, marked (.listed url text) ∈ h' ∧ web.loads text = .ok payload)
        (fun e => Readable web policy url → Reported (source.Orderly web policy) h' e) out)
      (source.load web policy url) h := by
  unfold load
  apply (loadPage_ensures hmay hm source.name).seq
  · rintro h₁ response - -
    have hmem : marked (.listed url response.text) ∈ h₁ ++ [marked (.listed url response.text)] := by
      simp
    apply quiet_ensures (by simp)
    intro u _
    cases hloads : web.loads response.text with
    | ok payload => exact ⟨response.text, hmem, hloads⟩
    | error failure =>
        cases failure with
        | decodeError message => exact fun _ => Reported.of_source _
        | other message => exact fun _ horderly => absurd hloads (horderly.bodies _ _ hmem message)
  · intro h₁ e hlonger hout hreadable horderly
    exact hout hreadable horderly.fetch

theorem items_error {payload : Json} {e : Raised} (hi : source.items payload url = .error e) :
    ∃ message, e = .source message := by
  unfold items at hi
  dsimp only at hi
  split at hi
  · cases hi
  · cases hi
  · cases hi
  · exact ⟨_, (Except.error.inj hi).symm⟩

theorem items_part {payload : Json} {items : List Json} (hi : source.items payload url = .ok items)
    {item : Json} (hitem : item ∈ items) : item.Part payload := by
  unfold ApiSource.items at hi
  dsimp only at hi
  split at hi
  · obtain rfl := Except.ok.inj hi
    cases hitem
  · obtain rfl := Except.ok.inj hi
    cases hitem
  · rename_i found hfound
    obtain rfl := Except.ok.inj hi
    have hpart : Json.Part (.arr found) payload := by
      split at hfound
      · exact Json.dig_part hfound
      · obtain rfl := Option.some.inj hfound
        exact .refl _
    exact Json.Part.trans (.item hitem (.refl _)) hpart
  · cases hi

theorem toRecord_error {item : Json} {collectedAt : Instant} {e : Raised}
    (hr : source.toRecord web item url collectedAt = .error e) :
    ∃ message, web.repr item = .error message := by
  have hquoted (result : CollectedItem)
      (hq : ((web.repr item).mapError Raised.other).bind (fun _ => Except.ok result) = .error e) :
      ∃ message, web.repr item = .error message := by
    cases hrepr : web.repr item with
    | error message => exact ⟨message, rfl⟩
    | ok s =>
        rw [hrepr] at hq
        cases hq
  unfold toRecord at hr
  split at hr
  · split at hr
    · cases hr
    · exact hquoted _ hr
  · exact hquoted _ hr

theorem emit_ensures (url : Text) (collectedAt : Instant) (items : List Json) (h : Trace) :
    Dialogue.Ensures (Sanctioned web policy headers may)
      (fun h' out => h <+: h' ∧ Dialogue.Outcome (fun _ => True)
        (fun _ => ∃ item ∈ items, ∃ message, web.repr item = .error message) out)
      (source.emit web url collectedAt items) h := by
  induction items generalizing h with
  | nil => exact ⟨List.prefix_refl h, trivial⟩
  | cons item items ih =>
      unfold emit
      apply Dialogue.Ensures.lift_bind
      cases hrecord : source.toRecord web item url collectedAt with
      | error e => exact ⟨List.prefix_refl h, item, by simp, toRecord_error hrecord⟩
      | ok record =>
          apply quiet_ensures (by simp)
          intro u _
          apply (ih _).mono (fun _ _ _ hok => hok)
          rintro h₁ (e | u) - ⟨hlonger, hout⟩
          · obtain ⟨bad, hmem, hbad⟩ := hout
            exact ⟨(List.prefix_append h _).trans hlonger, bad, List.mem_cons_of_mem _ hmem, hbad⟩
          · exact ⟨(List.prefix_append h _).trans hlonger, trivial⟩

theorem nextUrl_cases (web : Web) (source : ApiSource) (payload : Json) (current : Text)
    (count : Nat) :
    source.nextUrl web payload current count = .ok none ∨
      (Text.truthy source.options.nextPath = true ∧
        ∃ follow, payload.dig (source.options.nextPath.getD []) = some follow ∧
          follow.truthy = true ∧
            source.nextUrl web payload current count = (strOf web follow).bind fun link =>
              (joinUrl web current link).bind fun target => .ok (some target)) ∨
        (source.Numbered ∧ source.nextUrl web payload current count =
            (paramValue web current (source.options.pageParam.getD [])
              source.options.startPage).bind fun page =>
                (withParam web current (source.options.pageParam.getD []) (page + 1)).bind
                  fun target => .ok (some target)) := by
  unfold nextUrl
  split
  · rename_i hpath
    cases hdig : payload.dig (source.options.nextPath.getD []) with
    | none => exact .inl rfl
    | some follow =>
        dsimp only
        split
        · rename_i hfollow
          exact .inr (.inl ⟨hpath, follow, rfl, hfollow, rfl⟩)
        · exact .inl rfl
  · rename_i hpath
    split
    · rename_i hparam
      have hnumbered : source.Numbered := ⟨by simpa using hpath, (Bool.and_eq_true_iff.mp hparam).1⟩
      exact .inr (.inr ⟨hnumbered, rfl⟩)
    · exact .inl rfl

theorem strOf_ok (ho : source.Orderly web policy h) {text : Text}
    (hlisted : marked (.listed url text) ∈ h) {payload part : Json}
    (hloads : web.loads text = .ok payload) (hpart : part.Part payload) :
    ∃ s, strOf web part = .ok s := by
  obtain ⟨s, hs⟩ := ho.values url text payload hlisted hloads part hpart
  cases part with
  | str value => exact ⟨value, rfl⟩
  | null | bool | number | arr | obj =>
      refine ⟨s, ?_⟩
      change (web.repr _).mapError Raised.other = _
      rw [hs]
      rfl

theorem nextUrl_readable (ho : source.Orderly web policy h) {text : Text}
    (hlisted : marked (.listed url text) ∈ h) {payload : Json}
    (hloads : web.loads text = .ok payload) (hr : Readable web policy url) (count : Nat) :
    ∃ next, source.nextUrl web payload url count = .ok next ∧
      ∀ target, next = some target → Readable web policy target := by
  rcases nextUrl_cases web source payload url count with
    hnone | ⟨hpath, follow, hdig, hfollow, hlink⟩ | ⟨hnumbered, hnumber⟩
  · exact ⟨none, hnone, by simp⟩
  · obtain ⟨link, hstr⟩ := strOf_ok ho hlisted hloads (Json.dig_part hdig)
    obtain ⟨target, hjoin, hreadable⟩ :=
      ho.links url text payload link hlisted hloads ⟨hpath, follow, hdig, hfollow, hstr⟩
    refine ⟨some target, ?_, ?_⟩
    · rw [hlink, hstr]
      change (joinUrl web url link).bind _ = _
      rw [joinUrl_ok.mpr hjoin]
      rfl
    · rintro _ ⟨⟩
      exact hreadable
  · have ⟨parts, hsplit, _⟩ := hr
    have hsplit' := splitUrl_ok.mpr hsplit
    obtain ⟨page, hpage⟩ : ∃ page, paramValue web url (source.options.pageParam.getD [])
        source.options.startPage = .ok page := by
      unfold paramValue
      rw [hsplit']
      exact ⟨_, rfl⟩
    obtain ⟨s, hs⟩ := ho.numbers url text page hlisted hnumbered hpage
    have hnext := withParam_text hsplit' (source.options.pageParam.getD []) hs
    obtain ⟨parts', htarget, hscheme, hnetloc⟩ := withParam_ok hsplit' hnext
    refine ⟨some (replaceParam parts (source.options.pageParam.getD []) s), ?_, ?_⟩
    · rw [hnumber, hpage]
      change (withParam web url _ (page + 1)).bind _ = _
      rw [hnext]
      rfl
    · rintro _ ⟨⟩
      exact readable_congr hsplit' htarget hscheme hnetloc hr

/-- What a run may go on with. -/
structure Next (web : Web) (policy : FetchPolicy) (source : ApiSource)
    (may : Trace → Text → Prop) (h : Trace) (url : Text) : Prop where
  allowed : may h url
  readable : source.Orderly web policy h → Readable web policy url

theorem Next.later (hn : source.Next web policy may h url) (hmay : Reach web may) (hh : h <+: h') :
    source.Next web policy may h' url :=
  ⟨hmay.later hh hn.allowed, fun horderly => hn.readable (horderly.earlier hh)⟩

theorem nextUrl_next (hwalk : source.Walk web may) (hn : source.Next web policy may h url)
    {text : Text} (hlisted : marked (.listed url text) ∈ h) {payload : Json}
    (hloads : web.loads text = .ok payload) {count : Nat} {target : Text}
    (hnext : source.nextUrl web payload url count = .ok (some target)) :
    source.Next web policy may h target := by
  refine ⟨hwalk.next hn.allowed hlisted hloads hnext, fun horderly => ?_⟩
  obtain ⟨next, hok, hreadable⟩ :=
    nextUrl_readable horderly hlisted hloads (hn.readable horderly) count
  rw [hnext] at hok
  exact hreadable target (Except.ok.inj hok).symm

theorem listing_ensures (hwalk : source.Walk web may) (collectedAt : Instant)
    (hn : source.Next web policy may h url) {text : Text} (hlisted : marked (.listed url text) ∈ h)
    {payload : Json} (hloads : web.loads text = .ok payload) {goOn : Option Text → Fetch Unit}
    {post : Trace → Except Raised Unit → Prop}
    (hgoOn : ∀ h' next, (∀ target, next = some target → source.Next web policy may h' target) →
      Dialogue.Ensures (Sanctioned web policy source.options.headers may) post (goOn next) h')
    (hpost : ∀ h' e, Reported (source.Orderly web policy) h' e → post h' (.error e)) :
    Dialogue.Ensures (Sanctioned web policy source.options.headers may) post
      (source.listing web collectedAt url payload goOn) h := by
  unfold listing
  apply Dialogue.Ensures.lift_bind
  cases hitems : source.items payload url with
  | error e => exact hpost h e fun _ => items_error hitems
  | ok items =>
      apply (emit_ensures url collectedAt items h).seq
      · rintro h₁ - hlonger -
        have hlisted₁ := hlonger.subset hlisted
        have hn₁ := hn.later hwalk.toReach hlonger
        apply Dialogue.Ensures.lift_bind
        cases hnext : source.nextUrl web payload url items.length with
        | ok next =>
            apply hgoOn
            rintro target rfl
            exact nextUrl_next hwalk hn₁ hlisted₁ hloads hnext
        | error e =>
            apply hpost
            intro horderly
            obtain ⟨next, hok, -⟩ := nextUrl_readable horderly hlisted₁ hloads
              (hn₁.readable horderly) items.length
            rw [hok] at hnext
            cases hnext
      · rintro h₁ e hlonger ⟨-, item, hmem, message, hbad⟩
        apply hpost
        intro horderly
        obtain ⟨s, hs⟩ := horderly.values url text payload (hlonger.subset hlisted) hloads item
          (items_part hitems hmem)
        rw [hs] at hbad
        cases hbad

theorem pages_ensures (hwalk : source.Walk web may) (collectedAt : Instant) (left : Nat)
    (seen : List Text) (next : Option Text)
    (hn : ∀ url, next = some url → source.Next web policy may h url) :
    Dialogue.Ensures (Sanctioned web policy source.options.headers may)
      (fun h' out => Dialogue.Outcome (fun _ => True)
        (Reported (source.Orderly web policy) h') out)
      (source.pages web policy collectedAt left seen next) h := by
  induction left generalizing h seen next with
  | zero => exact trivial
  | succ left ih =>
      cases next with
      | none => exact trivial
      | some url =>
          have hurl := hn url rfl
          unfold pages
          split
          · exact trivial
          · apply (load_ensures hwalk.toReach hurl.allowed).seq
            · rintro h₁ payload hlonger ⟨text, hlisted, hloads⟩
              apply listing_ensures hwalk collectedAt (hurl.later hwalk.toReach hlonger) hlisted
                hloads
              · exact fun h₂ next hnext => ih (url :: seen) next hnext
              · exact fun h₂ e hreported => hreported
            · intro h₁ e hlonger hout horderly
              exact hout (hurl.readable (horderly.earlier hlonger)) horderly

/-- Every request of `collect` is one the walk allows, and in an orderly run nothing but a
`SourceError` comes out. -/
theorem collect_ensures (hwalk : source.Walk web may) (collectedAt : Instant) :
    Dialogue.Ensures (Sanctioned web policy source.options.headers may)
      (fun h' out => Dialogue.Outcome (fun _ => True)
        (Reported (source.Orderly web policy) h') out)
      (source.collect web policy collectedAt) [] := by
  unfold collect
  apply Dialogue.Ensures.lift_bind
  cases hfirst : source.firstUrl web with
  | error e =>
      intro horderly
      obtain ⟨first, hok, -⟩ := firstUrl_readable horderly
      rw [hok] at hfirst
      cases hfirst
  | ok first =>
      apply pages_ensures hwalk
      rintro url ⟨⟩
      refine ⟨hwalk.first hfirst, fun horderly => ?_⟩
      obtain ⟨first', hok, hreadable⟩ := firstUrl_readable horderly
      rw [hfirst] at hok
      obtain rfl := Except.ok.inj hok
      exact hreadable

end ApiSource

namespace HtmlSource

variable (web policy) (source : HtmlSource)

def Item (text : Text) (node : web.html.Node) : Prop :=
  ∃ soup nodes, parse web text source.options.parser = .ok soup ∧
    select web soup source.options.itemSelector = .ok nodes ∧ node ∈ nodes

def Link (text link : Text) : Prop :=
  Text.truthy source.options.nextSelector = true ∧ ∃ soup found,
    parse web text source.options.parser = .ok soup ∧
      selectOne web soup (source.options.nextSelector.getD []) = .ok found ∧
        found.bind (hrefOf web) = some link

def recordNext : Trace → Bool
  | [] => false
  | e :: later =>
      match e.call with
      | .note (.yielded _) => true
      | .note (.listed ..) => false
      | _ => recordNext later

/-- What happens on the way to the listings; what happens on the way to a record is left out. -/
def listingEvents : Trace → Trace
  | [] => []
  | e :: later =>
      if recordNext later then listingEvents later else e :: listingEvents later

/-- What was listed can be read, and it leads where it can be read on. -/
structure Legible (h : Trace) : Prop where
  start : Readable web policy source.options.url
  markup : ∀ url text, marked (.listed url text) ∈ h →
    ∃ soup, parse web text source.options.parser = .ok soup ∧
      (∃ nodes, select web soup source.options.itemSelector = .ok nodes) ∧
        (Text.truthy source.options.nextSelector = true →
          ∃ found, selectOne web soup (source.options.nextSelector.getD []) = .ok found)
  nodes : ∀ url text node, marked (.listed url text) ∈ h → source.Item web text node →
    ∃ s, render web node = .ok s
  links : ∀ url text link, marked (.listed url text) ∈ h → source.Link web text link →
    ∃ target, urljoin web.platform.unicode web.platform.isIPv6 url link = some target ∧
      Readable web policy target

/-- Nothing raises but what the adapter turns into a `SourceError` or an error of one record; on the
way to a detail page anything may. -/
structure Orderly (h : Trace) : Prop extends source.Legible web policy h where
  fetch : LeadPipe.Orderly web policy (listingEvents h)

/-- What may be requested for a page: the first page, what a listing leads to, the detail pages of
its items, and redirects. -/
structure Walk (may : Trace → Text → Prop) : Prop extends Reach web may where
  first : may [] source.options.url
  next : ∀ {h url text link target}, may h url → marked (.listed url text) ∈ h →
    source.Link web text link → joinUrl web url link = .ok target → may h target
  detail : ∀ {h url text node target}, may h url → marked (.listed url text) ∈ h →
    source.Item web text node → source.detailUrl web node url = .ok (some target) → may h target

variable {web policy source}

theorem recordNext_unmarked {part : Trace} (hpart : ∀ e ∈ part, e.call.isAdapters = false) :
    recordNext part = false := by
  induction part with
  | nil => rfl
  | cons e part ih =>
      have hcall := hpart e (by simp)
      have hrest := ih fun e he => hpart e (List.mem_cons_of_mem _ he)
      unfold recordNext
      split
      · rename_i hyielded
        rw [hyielded] at hcall
        cases hcall
      · rfl
      · exact hrest

theorem subset_listingEvents (h : Trace) {part : Trace}
    (hpart : ∀ e ∈ part, e.call.isAdapters = false) : part ⊆ listingEvents (h ++ part) := by
  induction h with
  | nil =>
      rw [List.nil_append]
      induction part with
      | nil => exact List.nil_subset _
      | cons e part ih =>
          have hrest := fun e he => hpart e (List.mem_cons_of_mem _ he)
          rw [listingEvents, recordNext_unmarked hrest, if_neg Bool.false_ne_true]
          exact List.cons_subset_cons e (ih hrest)
  | cons e h ih =>
      rw [List.cons_append, listingEvents]
      split
      · exact ih
      · exact fun event hevent => List.mem_cons_of_mem _ (ih hevent)

theorem Legible.earlier (ho : source.Legible web policy h') (hh : h <+: h') :
    source.Legible web policy h where
  start := ho.start
  markup url text hmem := ho.markup url text (hh.subset hmem)
  nodes url text node hmem := ho.nodes url text node (hh.subset hmem)
  links url text link hmem := ho.links url text link (hh.subset hmem)

theorem load_unmarked (source : HtmlSource) (url : Text) :
    Unmarked (source.load web policy url) :=
  (Unmarked.loadPage web policy source.name url _).bind fun _ => trivial

theorem load_ensures (hmay : Reach web may) (hm : may h url) :
    Dialogue.Ensures (Sanctioned web policy source.options.headers may)
      (fun h' out => Dialogue.Outcome (fun _ => True) (fun e =>
        Readable web policy url → Reported (LeadPipe.Orderly web policy) h' e) out)
      (source.load web policy url) h := by
  unfold load
  apply (loadPage_ensures hmay hm source.name).seq
  · exact fun h₁ response _ _ => trivial
  · exact fun h₁ e _ hout => hout

/-- A listing that cannot be had is reported, if what happens on the way to it is in order. -/
theorem loadListing_ensures (hmay : Reach web may) (hm : may h url) :
    Dialogue.Ensures (Sanctioned web policy source.options.headers may)
      (fun h' out => Dialogue.Outcome (fun _ => True) (fun e =>
        Readable web policy url → Reported (source.Orderly web policy) h' e) out)
      (source.load web policy url) h := by
  have heverywhere : Reach web fun _ _ => True := ⟨fun _ _ => trivial, fun _ _ => trivial⟩
  have hunmarked : Unmarked (source.load web policy url) := source.load_unmarked url
  have hpart := hunmarked.part (load_ensures heverywhere trivial) h
  apply ((load_ensures hmay hm).and hpart).mono (fun _ _ _ hok => hok.1)
  rintro h' (e | text) - ⟨-, part, rfl, hunmarked, hout⟩
  · exact fun hreadable horderly =>
      hout hreadable (horderly.fetch.within (subset_listingEvents h hunmarked))
  · trivial

theorem detail_ensures (hmay : Reach web may) (hm : may h url) :
    Dialogue.Ensures (Sanctioned web policy source.options.headers may) (fun _ _ => True)
      (source.load web policy url >>= fun text =>
        Dialogue.lift (parse web text source.options.parser)) h := by
  apply (load_ensures hmay hm).seq
  · exact fun _ _ _ _ => Dialogue.Ensures.lift trivial
  · exact fun _ _ _ _ => trivial

theorem detailed_ensures (hmay : Reach web may) (hm : may h url) (fields : Dict (Option Text))
    (collectedAt : Instant) :
    Dialogue.Ensures (Sanctioned web policy source.options.headers may) (fun _ _ => True)
      (source.detailed web policy fields collectedAt url) h := by
  unfold detailed
  apply (detail_ensures hmay hm).attempt.seq
  · rintro h₁ tried - -
    cases tried with
    | error e =>
        cases e with
        | source m => exact trivial
        | fetch f => exact trivial
        | transport m => exact trivial
        | other m => exact trivial
    | ok detail =>
        dsimp only
        apply Dialogue.Ensures.lift_bind
        cases overlay web detail source.options.detailMapping fields with
        | ok fields => exact trivial
        | error e => exact trivial
  · exact fun _ _ _ _ => trivial

theorem record_ensures (hmay : Reach web may) {node : web.html.Node}
    (hdetail : ∀ target, source.detailUrl web node url = .ok (some target) → may h target)
    (collectedAt : Instant) :
    Dialogue.Ensures (Sanctioned web policy source.options.headers may) (fun _ _ => True)
      (source.record web policy node url collectedAt) h := by
  unfold record
  apply Dialogue.Ensures.lift_bind
  split
  · apply Dialogue.Ensures.bind
    apply Dialogue.Ensures.lift
    split
    · apply Dialogue.Ensures.bind
      apply Dialogue.Ensures.lift
      cases hurl : source.detailUrl web node url with
      | error e => exact trivial
      | ok found =>
          cases found with
          | none => exact trivial
          | some target =>
              dsimp only
              exact detailed_ensures hmay (hdetail target hurl) _ collectedAt
    · exact trivial
  · exact trivial

theorem toRecord_ensures (hmay : Reach web may) {node : web.html.Node}
    (hdetail : ∀ target, source.detailUrl web node url = .ok (some target) → may h target)
    (collectedAt : Instant) :
    Dialogue.Ensures (Sanctioned web policy source.options.headers may)
      (fun _ out => Dialogue.Outcome (fun _ => True) (fun e => render web node = .error e) out)
      (source.toRecord web policy node url collectedAt) h := by
  unfold toRecord
  apply (record_ensures hmay hdetail collectedAt).attempt.seq
  · rintro h₁ - - ⟨e | item, ⟨⟩, -⟩
    · dsimp only
      apply Dialogue.Ensures.lift_bind
      cases hrender : render web node with
      | error e => rfl
      | ok s => exact trivial
    · exact trivial
  · rintro h₁ e - ⟨out, ⟨⟩, -⟩

theorem emit_ensures (hmay : Reach web may) (collectedAt : Instant) (nodes : List web.html.Node)
    (hdetail : ∀ node ∈ nodes, ∀ target, source.detailUrl web node url = .ok (some target) →
      may h target) (emitted : Nat) :
    Dialogue.Ensures (Sanctioned web policy source.options.headers may)
      (fun _ out => Dialogue.Outcome (fun _ => True)
        (fun e => ∃ node ∈ nodes, render web node = .error e) out)
      (source.emit web policy url collectedAt nodes emitted) h := by
  induction nodes generalizing h emitted with
  | nil => exact trivial
  | cons node nodes ih =>
      unfold emit
      apply (toRecord_ensures hmay (hdetail node (by simp)) collectedAt).seq
      · intro h₁ item hlonger _
        apply quiet_ensures (by simp)
        intro u _
        split
        · exact trivial
        · have hlater : h <+: h₁ ++ [marked (.yielded item)] :=
            hlonger.trans (List.prefix_append h₁ _)
          apply (ih _ (emitted + 1)).mono (fun _ _ _ hok => hok)
          · rintro h₂ (e | n) - hout
            · obtain ⟨bad, hmem, hbad⟩ := hout
              exact ⟨bad, List.mem_cons_of_mem _ hmem, hbad⟩
            · exact trivial
          · intro other hmem target htarget
            exact hmay.later hlater (hdetail other (List.mem_cons_of_mem _ hmem) target htarget)
      · intro h₁ e _ hrender
        exact ⟨node, by simp, hrender⟩

theorem nextUrl_cases (web : Web) (source : HtmlSource) {text : Text} {soup : web.html.Node}
    (hparse : parse web text source.options.parser = .ok soup) (current : Text) :
    source.nextUrl web soup current = .ok none ∨
      (∃ link, source.Link web text link ∧
        source.nextUrl web soup current = (joinUrl web current link).map some) ∨
        (Text.truthy source.options.nextSelector = true ∧
          ∃ e, selectOne web soup (source.options.nextSelector.getD []) = .error e ∧
            source.nextUrl web soup current = .error e) := by
  unfold nextUrl
  split
  · rename_i hselector
    cases hfound : selectOne web soup (source.options.nextSelector.getD []) with
    | error e => exact .inr (.inr ⟨hselector, e, rfl, rfl⟩)
    | ok found =>
        change follow web current (found.bind (hrefOf web)) = _ ∨ (∃ link, _ ∧
          follow web current (found.bind (hrefOf web)) = _) ∨ _
        cases hlink : found.bind (hrefOf web) with
        | none => exact .inl rfl
        | some link =>
            exact .inr (.inl ⟨link, ⟨hselector, soup, found, hparse, hfound, hlink⟩, rfl⟩)
  · exact .inl rfl

theorem nextUrl_readable (ho : source.Legible web policy h) {text : Text}
    (hlisted : marked (.listed url text) ∈ h) {soup : web.html.Node}
    (hparse : parse web text source.options.parser = .ok soup) :
    ∃ next, source.nextUrl web soup url = .ok next ∧
      ∀ target, next = some target → Readable web policy target := by
  rcases nextUrl_cases web source hparse url with
    hnone | ⟨link, hlink, hnext⟩ | ⟨hselector, e, hbad, -⟩
  · exact ⟨none, hnone, by simp⟩
  · obtain ⟨target, hjoin, hreadable⟩ := ho.links url text link hlisted hlink
    refine ⟨some target, ?_, ?_⟩
    · rw [hnext, joinUrl_ok.mpr hjoin]
      rfl
    · rintro _ ⟨⟩
      exact hreadable
  · obtain ⟨soup', hsoup, -, hfound⟩ := ho.markup url text hlisted
    obtain rfl := Except.ok.inj (hparse.symm.trans hsoup)
    obtain ⟨found, hok⟩ := hfound hselector
    rw [hok] at hbad
    cases hbad

/-- What a run may go on with. -/
structure Next (web : Web) (policy : FetchPolicy) (source : HtmlSource)
    (may : Trace → Text → Prop) (h : Trace) (url : Text) : Prop where
  allowed : may h url
  readable : source.Legible web policy h → Readable web policy url

theorem Next.later (hn : source.Next web policy may h url) (hmay : Reach web may) (hh : h <+: h') :
    source.Next web policy may h' url :=
  ⟨hmay.later hh hn.allowed, fun hlegible => hn.readable (hlegible.earlier hh)⟩

theorem nextUrl_next (hwalk : source.Walk web may) (hn : source.Next web policy may h url)
    {text : Text} (hlisted : marked (.listed url text) ∈ h) {soup : web.html.Node}
    (hparse : parse web text source.options.parser = .ok soup) {target : Text}
    (hnext : source.nextUrl web soup url = .ok (some target)) :
    source.Next web policy may h target := by
  constructor
  · rcases nextUrl_cases web source hparse url with
      hnone | ⟨link, hlink, hjoined⟩ | ⟨-, e, -, hbad⟩
    · rw [hnone] at hnext
      cases hnext
    · rw [hjoined] at hnext
      cases hjoin : joinUrl web url link with
      | error e =>
          rw [hjoin] at hnext
          cases hnext
      | ok joined =>
          rw [hjoin] at hnext
          obtain rfl := Option.some.inj (Except.ok.inj hnext)
          exact hwalk.next hn.allowed hlisted hlink hjoin
    · rw [hbad] at hnext
      cases hnext
  · intro hlegible
    obtain ⟨next, hok, hreadable⟩ := nextUrl_readable hlegible hlisted hparse
    rw [hnext] at hok
    exact hreadable target (Except.ok.inj hok).symm

theorem listing_ensures (hwalk : source.Walk web may) (collectedAt : Instant)
    (hn : source.Next web policy may h url) {text : Text} (hlisted : marked (.listed url text) ∈ h)
    (emitted : Nat) {goOn : Nat → Option Text → Fetch Unit}
    {post : Trace → Except Raised Unit → Prop}
    (hgoOn : ∀ h' emitted next,
      (∀ target, next = some target → source.Next web policy may h' target) →
        Dialogue.Ensures (Sanctioned web policy source.options.headers may) post
          (goOn emitted next) h')
    (hdone : ∀ h', post h' (.ok ()))
    (hpost : ∀ h' e, Reported (source.Orderly web policy) h' e → post h' (.error e)) :
    Dialogue.Ensures (Sanctioned web policy source.options.headers may) post
      (source.listing web policy collectedAt url text emitted goOn) h := by
  unfold listing
  apply Dialogue.Ensures.lift_bind
  cases hparse : parse web text source.options.parser with
  | error e =>
      apply hpost
      intro horderly
      obtain ⟨soup, hsoup, -⟩ := horderly.markup url text hlisted
      rw [hparse] at hsoup
      cases hsoup
  | ok soup =>
      apply Dialogue.Ensures.lift_bind
      cases hselect : select web soup source.options.itemSelector with
      | error e =>
          apply hpost
          intro horderly
          obtain ⟨soup', hsoup, ⟨nodes, hnodes⟩, -⟩ := horderly.markup url text hlisted
          obtain rfl := Except.ok.inj (hparse.symm.trans hsoup)
          rw [hselect] at hnodes
          cases hnodes
      | ok nodes =>
          have hitem (node : web.html.Node) (hnode : node ∈ nodes) :
              source.Item web text node := ⟨soup, nodes, hparse, hselect, hnode⟩
          apply (emit_ensures hwalk.toReach collectedAt nodes (fun node hnode target hdetail =>
            hwalk.detail hn.allowed hlisted (hitem node hnode) hdetail) emitted).seq
          · rintro h₁ (- | emitted) hlonger -
            · exact hdone h₁
            · have hlisted₁ := hlonger.subset hlisted
              apply Dialogue.Ensures.lift_bind
              cases hnext : source.nextUrl web soup url with
              | ok next =>
                  apply hgoOn
                  rintro target rfl
                  exact nextUrl_next hwalk (hn.later hwalk.toReach hlonger) hlisted₁ hparse hnext
              | error e =>
                  apply hpost
                  intro horderly
                  obtain ⟨next, hok, -⟩ := nextUrl_readable horderly.toLegible hlisted₁ hparse
                  rw [hok] at hnext
                  cases hnext
          · rintro h₁ e hlonger ⟨node, hnode, hbad⟩
            apply hpost
            intro horderly
            obtain ⟨s, hs⟩ := horderly.nodes url text node (hlonger.subset hlisted)
              (hitem node hnode)
            rw [hs] at hbad
            cases hbad

theorem pages_ensures (hwalk : source.Walk web may) (collectedAt : Instant) (left : Nat)
    (seen : List Text) (emitted : Nat) (next : Option Text)
    (hn : ∀ url, next = some url → source.Next web policy may h url) :
    Dialogue.Ensures (Sanctioned web policy source.options.headers may)
      (fun h' out => Dialogue.Outcome (fun _ => True)
        (Reported (source.Orderly web policy) h') out)
      (source.pages web policy collectedAt left seen emitted next) h := by
  induction left generalizing h seen emitted next with
  | zero => exact trivial
  | succ left ih =>
      cases next with
      | none => exact trivial
      | some url =>
          have hurl := hn url rfl
          unfold pages
          split
          · exact trivial
          · apply (loadListing_ensures hwalk.toReach hurl.allowed).seq
            · rintro h₁ text hlonger -
              apply quiet_ensures (by simp)
              intro u _
              have hlater : h <+: h₁ ++ [marked (.listed url text)] :=
                hlonger.trans (List.prefix_append h₁ _)
              apply listing_ensures hwalk collectedAt (hurl.later hwalk.toReach hlater) (by simp)
              · exact fun h₂ emitted next hnext => ih (url :: seen) emitted next hnext
              · exact fun h₂ => trivial
              · exact fun h₂ e hreported => hreported
            · intro h₁ e hlonger hout horderly
              exact hout (hurl.readable (horderly.toLegible.earlier hlonger)) horderly

/-- Every request of `collect` is one the walk allows, and in an orderly run nothing but a
`SourceError` comes out. -/
theorem collect_ensures (hwalk : source.Walk web may) (collectedAt : Instant) :
    Dialogue.Ensures (Sanctioned web policy source.options.headers may)
      (fun h' out => Dialogue.Outcome (fun _ => True)
        (Reported (source.Orderly web policy) h') out)
      (source.collect web policy collectedAt) [] := by
  unfold collect
  apply pages_ensures hwalk
  rintro url ⟨⟩
  exact ⟨hwalk.first, fun hlegible => hlegible.start⟩

end HtmlSource

end LeadPipe
