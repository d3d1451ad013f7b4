import LeadPipe.Python.Queries
import LeadPipe.Python.Strings
import LeadPipe.Fetch.Surroundings
import LeadPipe.Sources.Runs

/-!
# Pages by number

With a page parameter and no path to the next page, every address that is requested is the
configured one with another number in it. It is put together from the one before by decoding and
encoding the query: on the way, what has no value is lost, and what is no UTF-8 is replaced.
-/

namespace LeadPipe

open Framework Urllib

variable {web : Web} {policy : FetchPolicy} {parts : SplitResult} {param : Text}

/-- The other parameters, as `_with_param` keeps them. -/
def otherValues (parts : SplitResult) (param : Text) : List (Text × Text) :=
  (parseQslValues parts.query).filter fun p => p.1 != param

def replacedQuery (parts : SplitResult) (param value : Text) : Text :=
  urlencode (otherValues parts param ++ [(param, value)])

def pageAddress (parts : SplitResult) (param : Text) (number : Int) : Text :=
  replaceParam parts param (Text.ofInt number)

theorem urlsplit_replaceParam {uc : Unicode} {isIPv6 : Text → Bool} {url : Text}
    (h : urlsplit uc isIPv6 url = some parts) (param value : Text) :
    urlsplit uc isIPv6 (replaceParam parts param value) =
      some ⟨parts.scheme, parts.netloc, parts.path, replacedQuery parts param value,
        parts.fragment⟩ :=
  urlsplit_requery h fun _ hc => queryChar_plain (urlencode_safe hc)

theorem mem_otherValues {p : Text × Text} (h : p ∈ otherValues parts param) :
    p.1 ≠ param ∧ p.2 ≠ [] := by
  obtain ⟨hmem, hother⟩ := List.mem_filter.mp h
  rw [parseQslValues_eq] at hmem
  have hvalue := (List.mem_filter.mp hmem).2
  exact ⟨by simpa using hother, by simpa using hvalue⟩

theorem parseQslValues_replaced (parts : SplitResult) (param : Text) {value : Text}
    (hvalue : value ≠ []) :
    parseQslValues (replacedQuery parts param value) =
      otherValues parts param ++ [(param, value)] := by
  rw [parseQslValues_eq, replacedQuery, parseQsl_urlencode, List.filter_eq_self]
  intro p hp
  rcases List.mem_append.mp hp with hp | hp
  · simpa using (mem_otherValues hp).2
  · rw [List.mem_singleton.mp hp]
    simpa using hvalue

theorem filter_otherValues (parts : SplitResult) (param : Text) :
    (otherValues parts param).filter (fun p => p.1 != param) = otherValues parts param := by
  rw [List.filter_eq_self]
  intro p hp
  simpa using (mem_otherValues hp).1

theorem replaceParam_again (parts : SplitResult) (param : Text) {value : Text}
    (hvalue : value ≠ []) (again : Text) :
    replaceParam ⟨parts.scheme, parts.netloc, parts.path, replacedQuery parts param value,
      parts.fragment⟩ param again = replaceParam parts param again := by
  unfold replaceParam
  dsimp only
  rw [parseQslValues_replaced parts param hvalue, List.filter_append, filter_otherValues]
  simp [otherValues]

theorem strInt_ok {n : Int} {s : Text} (h : strInt n = .ok s) :
    s = Text.ofInt n ∧ (Text.ofNat n.natAbs).length ≤ 4300 := by
  unfold strInt at h
  split at h
  · rename_i hlength
    exact ⟨(Except.ok.inj h).symm, hlength⟩
  · cases h

section Numbers

variable {url : Text} (hsplit : splitUrl web url = .ok parts)

include hsplit

theorem splitUrl_pageAddress (param : Text) (n : Int) :
    splitUrl web (pageAddress parts param n) =
      .ok ⟨parts.scheme, parts.netloc, parts.path,
        replacedQuery parts param (Text.ofInt n), parts.fragment⟩ :=
  splitUrl_ok.mpr (urlsplit_replaceParam (splitUrl_ok.mp hsplit) param _)

theorem paramValue_pageAddress (hdecimal : ReadsDigits web.decimal) {n : Int} {s : Text}
    (hn : strInt n = .ok s) (default : Int) :
    paramValue web (pageAddress parts param n) param default = .ok n := by
  have hfound : (otherValues parts param ++ [(param, Text.ofInt n)]).find?
      (fun p => p.1 == param) = some (param, Text.ofInt n) := by
    rw [List.find?_append, List.find?_eq_none.mpr]
    · simp
    · intro p hp
      simpa using (mem_otherValues hp).1
  have hread := Text.int_ofInt web.platform.unicode hdecimal (strInt_ok hn).2
  unfold paramValue
  rw [splitUrl_pageAddress hsplit]
  change Except.ok _ = _
  dsimp only
  rw [parseQslValues_replaced parts param (Text.ofInt_ne_nil n), hfound]
  dsimp only
  rw [hread]
  rfl

theorem withParam_pageAddress (n : Int) {m : Int} {s : Text} (hm : strInt m = .ok s) :
    withParam web (pageAddress parts param n) param m = .ok (pageAddress parts param m) := by
  rw [withParam_text (splitUrl_pageAddress hsplit param n) param hm,
    replaceParam_again parts param (Text.ofInt_ne_nil n), (strInt_ok hm).1]
  rfl

theorem withParam_error {m : Int} {e : Raised} (hm : strInt m = .error e) (param : Text) :
    withParam web url param m = .error e := by
  unfold withParam
  rw [hsplit, hm]
  rfl

theorem pageAddress_injective (param : Text) : Function.Injective (pageAddress parts param) := by
  intro m n h
  have hm := splitUrl_pageAddress hsplit param m
  rw [h, splitUrl_pageAddress hsplit] at hm
  have hquery := congrArg parseQsl (congrArg SplitResult.query (Except.ok.inj hm))
  rw [replacedQuery, replacedQuery, parseQsl_urlencode, parseQsl_urlencode,
    List.append_cancel_left_eq] at hquery
  have hvalue := (Prod.mk.inj (List.cons.inj hquery).1).2
  exact (Text.ofInt_injective hvalue).symm

end Numbers

/-- A parameter, as bytes, that is not the page's. -/
def isOther (param : Text) (p : List Nat × List Nat) : Bool := p.1 != encodeUtf8 param

/-- The address is the configured one with this page number: the other parameters stand for the
same bytes as those of the configured address, in their order. -/
def IsPage (web : Web) (parts : SplitResult) (param : Text) (number : Int) (url : Text) : Prop :=
  ∃ parts', splitUrl web url = .ok parts' ∧ parts'.scheme = parts.scheme ∧
    parts'.netloc = parts.netloc ∧ parts'.path = parts.path ∧
      (queryBytes parts'.query).filter (fun p => !isOther param p) =
          [(encodeUtf8 param, encodeUtf8 (Text.ofInt number))] ∧
        (queryBytes parts'.query).filter (isOther param) =
          (queryBytes parts.query).filter (isOther param)

/-- Every other parameter of the address has a value, and its name and its value are UTF-8. -/
def Preserved (parts : SplitResult) (param : Text) : Prop :=
  ∀ p ∈ queryBytes parts.query, isOther param p = true → p.2 ≠ [] ∧ IsUtf8 p.1 ∧ IsUtf8 p.2

theorem isOther_paramBytes (p : Text × Text) : isOther param (paramBytes p) = (p.1 != param) := by
  rw [isOther, paramBytes, Bool.eq_iff_iff, bne_iff_ne, bne_iff_ne,
    encodeUtf8_injective.ne_iff]

theorem queryBytes_replaced (parts : SplitResult) (param value : Text) :
    queryBytes (replacedQuery parts param value) =
      (otherValues parts param).map paramBytes ++ [paramBytes (param, value)] := by
  rw [replacedQuery, queryBytes_urlencode, List.map_append]
  rfl

theorem isOther_otherValues {p : List Nat × List Nat}
    (h : p ∈ (otherValues parts param).map paramBytes) : isOther param p = true := by
  obtain ⟨q, hq, rfl⟩ := List.mem_map.mp h
  rw [isOther_paramBytes]
  simpa using (mem_otherValues hq).1

/-- Blank values are dropped and bytes that are no UTF-8 replaced, nothing else. -/
theorem otherValues_eq_iff :
    (otherValues parts param).map paramBytes =
        (queryBytes parts.query).filter (isOther param) ↔ Preserved parts param := by
  constructor
  · intro hsame p hp hother
    have hmem : p ∈ (otherValues parts param).map paramBytes := by
      rw [hsame]
      exact List.mem_filter.mpr ⟨hp, hother⟩
    obtain ⟨q, hq, rfl⟩ := List.mem_map.mp hmem
    refine ⟨fun hblank => (mem_otherValues hq).2 ?_, isUtf8_encode q.1, isUtf8_encode q.2⟩
    exact encodeUtf8_injective hblank
  · intro hkept
    have hread : otherValues parts param =
        ((queryBytes parts.query).filter (isOther param)).map
          (Prod.map decodeBytes decodeBytes) := by
      rw [otherValues, parseQslValues_eq, parseQsl_bytes, List.filter_filter, List.filter_map]
      congr 1
      apply List.filter_congr
      intro p hp
      by_cases hother : isOther param p = true
      · obtain ⟨hvalue, hname, -⟩ := hkept p hp hother
        have hne : decodeBytes p.1 ≠ param := by
          rintro rfl
          rw [isOther, hname] at hother
          simp at hother
        simp [Prod.map, hother, hne, decodeBytes_eq_nil, hvalue]
      · have hpage : p.1 = encodeUtf8 param := by simpa [isOther] using hother
        simp [Prod.map, isOther, hpage, decodeBytes_encode]
    rw [hread, List.map_map]
    refine (List.map_congr_left fun p hp => ?_).trans (List.map_id _)
    obtain ⟨hmem, hother⟩ := List.mem_filter.mp hp
    obtain ⟨-, hname, hvalue⟩ := hkept p hmem hother
    exact Prod.ext hname hvalue

theorem isPage_iff {url : Text} (hsplit : splitUrl web url = .ok parts) (param : Text) (n : Int) :
    IsPage web parts param n (pageAddress parts param n) ↔ Preserved parts param := by
  have hpage := splitUrl_pageAddress hsplit param n
  have hown : isOther param (paramBytes (param, Text.ofInt n)) = false := by
    rw [isOther_paramBytes]
    simp
  have hothers : ((otherValues parts param).map paramBytes).filter (isOther param) =
      (otherValues parts param).map paramBytes := by
    rw [List.filter_eq_self]
    exact fun p hp => isOther_otherValues hp
  have hnone : ((otherValues parts param).map paramBytes).filter
      (fun p => !isOther param p) = [] := by
    rw [List.filter_eq_nil_iff]
    intro p hp
    simp [isOther_otherValues hp]
  rw [← otherValues_eq_iff]
  constructor
  · rintro ⟨parts', hparts', -, -, -, -, hsame⟩
    rw [hpage] at hparts'
    obtain rfl := Except.ok.inj hparts'
    rw [queryBytes_replaced, List.filter_append, hothers] at hsame
    simpa [hown] using hsame
  · intro hsame
    refine ⟨_, hpage, rfl, rfl, rfl, ?_, ?_⟩
    · rw [queryBytes_replaced, List.filter_append, hnone]
      simp only [List.nil_append, List.filter_cons, hown, Bool.not_false, if_true, List.filter_nil]
      rfl
    · rw [queryBytes_replaced, List.filter_append, hothers, hsame]
      simp [hown]

/-- The pages that items were read from, with what they were answered with. -/
def listings (h : Trace) : List (Text × Text) :=
  h.filterMap fun e =>
    match e.call with
    | .note (.listed url text) => some (url, text)
    | _ => none

theorem listings_marked (h : Trace) (url text : Text) :
    listings (h ++ [marked (.listed url text)]) = listings h ++ [(url, text)] := by
  simp [listings, marked]

theorem Unmarked.listings {α : Type} {m : Fetch α} (hm : Unmarked m) (h : Trace) :
    Dialogue.Ensures (fun _ _ => True) (fun h' _ => LeadPipe.listings h' = LeadPipe.listings h)
      m h := by
  apply Dialogue.Only.filterMap hm
  intro c a hc
  cases c with
  | note n =>
      cases n with
      | listed url text => cases hc
      | vetted | rules | yielded => rfl
  | request | cached | remember | clock | wait | sleep => rfl

namespace ApiSource

variable {source : ApiSource}

/-- A page that is loaded is listed; one that is not may be, as the last one. -/
theorem load_lists (url : Text) (h : Trace) :
    Dialogue.Ensures (fun _ _ => True)
      (fun h' out => Dialogue.Outcome
        (fun payload => ∃ text, listings h' = listings h ++ [(url, text)] ∧
          web.loads text = .ok payload)
        (fun _ => listings h' = listings h ∨ ∃ text, listings h' = listings h ++ [(url, text)]) out)
      (source.load web policy url) h := by
  unfold load
  apply (Unmarked.loadPage web policy source.name url source.options.headers).listings h |>.seq
  · intro h₁ response _ hsame u
    have hlisted := listings_marked h₁ url response.text
    rw [hsame] at hlisted
    refine ⟨trivial, ?_⟩
    cases hloads : web.loads response.text with
    | ok payload => exact ⟨response.text, hlisted, hloads⟩
    | error failure =>
        cases failure with
        | decodeError message => exact .inr ⟨response.text, hlisted⟩
        | other message => exact .inr ⟨response.text, hlisted⟩
  · exact fun h₁ e _ hsame => .inl hsame

theorem emit_lists (url : Text) (collectedAt : Instant) (items : List Json) (h : Trace) :
    Dialogue.Ensures (fun _ _ => True) (fun h' _ => listings h' = listings h)
      (source.emit web url collectedAt items) h := by
  induction items generalizing h with
  | nil => rfl
  | cons item items ih =>
      unfold emit
      apply Dialogue.Ensures.lift_bind
      cases source.toRecord web item url collectedAt with
      | error e => rfl
      | ok record =>
          intro u
          refine ⟨trivial, (ih _).mono (fun _ _ _ hok => hok) fun h' out _ hsame => ?_⟩
          rw [hsame]
          simp [listings]

/-- The adapter follows page numbers. -/
structure Paginates (source : ApiSource) (param : Text) : Prop where
  param : source.options.pageParam = some param
  path : Text.truthy source.options.nextPath = false

theorem nextUrl_pageAddress (hpages : source.Paginates param)
    (hdecimal : ReadsDigits web.decimal) {url : Text} (hsplit : splitUrl web url = .ok parts)
    {n : Int} {s : Text} (hn : strInt n = .ok s) (payload : Json) (count : Nat) :
    ((param = [] ∨ count = 0) ∧
        source.nextUrl web payload (pageAddress parts param n) count = .ok none) ∨
      (∃ s', strInt (n + 1) = .ok s' ∧
        source.nextUrl web payload (pageAddress parts param n) count =
          .ok (some (pageAddress parts param (n + 1)))) ∨
        ∃ e, source.nextUrl web payload (pageAddress parts param n) count = .error e := by
  have hget : source.options.pageParam.getD [] = param := by rw [hpages.param, Option.getD_some]
  have hpath : ¬Text.truthy source.options.nextPath = true := by
    rw [hpages.path]
    decide
  unfold nextUrl
  rw [if_neg hpath]
  split
  · right
    rw [hget]
    dsimp only
    rw [paramValue_pageAddress hsplit hdecimal hn]
    change (∃ s', _ ∧ (withParam web _ param (n + 1)).bind _ = _) ∨
      ∃ e, (withParam web _ param (n + 1)).bind _ = _
    cases hm : strInt (n + 1) with
    | ok s' =>
        rw [withParam_pageAddress hsplit n hm]
        exact .inl ⟨s', rfl, rfl⟩
    | error e =>
        rw [withParam_error (splitUrl_pageAddress hsplit param n) hm]
        exact .inr ⟨e, rfl⟩
  · rename_i hstop
    refine .inl ⟨?_, rfl⟩
    rw [hpages.param] at hstop
    have hcases : ¬(param ≠ [] ∧ count ≠ 0) := by simpa [Text.truthy] using hstop
    tauto

variable (web source) (parts param)

/-- The first pages were listed, in their order. -/
def Lists (m : Nat) (h : Trace) : Prop :=
  (listings h).map Prod.fst =
    (List.range m).map fun k : Nat => pageAddress parts param (source.options.startPage + k)

/-- A page had no items. -/
def Ended (h : Trace) : Prop :=
  ∃ url text payload, (url, text) ∈ listings h ∧ web.loads text = .ok payload ∧
    source.items payload url = .ok []

/-- What a run has listed: the first pages, and all of them unless there is a reason to stop. -/
def Paged (total : Nat) (h : Trace) (out : Except Raised Unit) : Prop :=
  ∃ m ≤ total, source.Lists parts param m h ∧
    (out = .ok () → m = total ∨ param = [] ∨ source.Ended web h)

/-- What may come after the page before the `k`-th. -/
def Upcoming (k : Nat) (h : Trace) (next : Option Text) : Prop :=
  (next = none ∧ (param = [] ∨ source.Ended web h)) ∨
    ∃ s, strInt (source.options.startPage + k) = .ok s ∧
      next = some (pageAddress parts param (source.options.startPage + k))

variable {web source parts param}

theorem Lists.succ {m : Nat} {h h' : Trace} (hl : source.Lists parts param m h) {text : Text}
    (hlisted : listings h' = listings h ++
      [(pageAddress parts param (source.options.startPage + m), text)]) :
    source.Lists parts param (m + 1) h' := by
  unfold Lists at hl ⊢
  rw [hlisted, List.map_append, hl, List.range_succ, List.map_append]
  rfl

theorem Lists.congr {m : Nat} {h h' : Trace} (hl : source.Lists parts param m h)
    (hsame : listings h' = listings h) : source.Lists parts param m h' := by
  unfold Lists at hl ⊢
  rw [hsame, hl]

/-- The records of a page leave the list as it is, and the next page is the one with the next
number. -/
theorem listing_lists (hpages : source.Paginates param) (hdecimal : ReadsDigits web.decimal)
    {configured : Text} (hsplit : splitUrl web configured = .ok parts) (collectedAt : Instant)
    {k : Nat} {s : Text} (hk : strInt (source.options.startPage + k) = .ok s) {h : Trace}
    {text : Text} {payload : Json} (hloads : web.loads text = .ok payload)
    (hmem : (pageAddress parts param (source.options.startPage + k), text) ∈ listings h)
    {goOn : Option Text → Fetch Unit} {post : Trace → Except Raised Unit → Prop}
    (hgoOn : ∀ h' next, listings h' = listings h →
      source.Upcoming web parts param (k + 1) h' next →
        Dialogue.Ensures (fun _ _ => True) post (goOn next) h')
    (hpost : ∀ h' e, listings h' = listings h → post h' (.error e)) :
    Dialogue.Ensures (fun _ _ => True) post
      (source.listing web collectedAt
        (pageAddress parts param (source.options.startPage + k)) payload goOn) h := by
  unfold listing
  apply Dialogue.Ensures.lift_bind
  cases hitems : source.items payload
      (pageAddress parts param (source.options.startPage + k)) with
  | error e => exact hpost h e rfl
  | ok items =>
      apply (emit_lists _ collectedAt items h).seq
      · intro h₁ u _ hsame
        apply Dialogue.Ensures.lift_bind
        rcases nextUrl_pageAddress hpages hdecimal hsplit hk payload items.length with
          ⟨hstop, hnext⟩ | ⟨s', hs', hnext⟩ | ⟨e, hnext⟩
        · rw [hnext]
          apply hgoOn h₁ none hsame
          refine .inl ⟨rfl, hstop.imp_right fun hempty => ?_⟩
          obtain rfl := List.length_eq_zero_iff.mp hempty
          exact ⟨_, text, payload, hsame ▸ hmem, hloads, hitems⟩
        · rw [hnext]
          apply hgoOn h₁ _ hsame
          have hnumber : source.options.startPage + (k + 1 : Nat) =
              source.options.startPage + k + 1 := by
            push_cast
            rw [Int.add_assoc]
          refine .inr ⟨s', ?_, ?_⟩
          · rw [hnumber, hs']
          · rw [hnumber]
        · rw [hnext]
          exact hpost h₁ e hsame
      · exact fun h₁ e _ hsame => hpost h₁ e hsame

theorem pages_lists (hpages : source.Paginates param) (hdecimal : ReadsDigits web.decimal)
    {configured : Text} (hsplit : splitUrl web configured = .ok parts) (collectedAt : Instant)
    (left k : Nat) {seen : List Text}
    (hseen : ∀ url ∈ seen, ∃ j < k,
      url = pageAddress parts param (source.options.startPage + (j : Nat)))
    {next : Option Text} {h : Trace} (hlists : source.Lists parts param k h)
    (hnext : source.Upcoming web parts param k h next) :
    Dialogue.Ensures (fun _ _ => True) (source.Paged web parts param (k + left))
      (source.pages web policy collectedAt left seen next) h := by
  induction left generalizing k seen next h with
  | zero => exact ⟨k, le_rfl, hlists, fun _ => .inl rfl⟩
  | succ left ih =>
      rcases hnext with ⟨rfl, hstop⟩ | ⟨s, hs, rfl⟩
      · exact ⟨k, by omega, hlists, fun _ => .inr hstop⟩
      · have hnew : seen.contains (pageAddress parts param (source.options.startPage + k)) =
            false := by
          rw [← Bool.not_eq_true, List.contains_iff_mem]
          intro hmem
          obtain ⟨j, hj, hsame⟩ := hseen _ hmem
          have hnumber := pageAddress_injective hsplit param hsame
          omega
        have htotal : k + (left + 1) = k + 1 + left := by omega
        rw [htotal]
        unfold pages
        rw [if_neg (by rw [hnew]; decide)]
        apply (load_lists _ h).seq
        · rintro h₁ payload - ⟨text, hlisted, hloads⟩
          have hmem : (pageAddress parts param (source.options.startPage + k), text) ∈
              listings h₁ := by
            rw [hlisted]
            exact List.mem_append_right _ (List.mem_singleton_self _)
          have hlists₁ := hlists.succ hlisted
          apply listing_lists hpages hdecimal hsplit collectedAt hs hloads hmem
          · intro h₂ next hsame hupcoming
            apply ih (k + 1) ?_ (hlists₁.congr hsame) hupcoming
            intro url hurl
            rcases List.mem_cons.mp hurl with rfl | hurl
            · exact ⟨k, by omega, rfl⟩
            · obtain ⟨j, hj, heq⟩ := hseen url hurl
              exact ⟨j, by omega, heq⟩
          · rintro h₂ e hsame
            exact ⟨k + 1, by omega, hlists₁.congr hsame, by simp⟩
        · rintro h₁ e - (hsame | ⟨text, hlisted⟩)
          · exact ⟨k, by omega, hlists.congr hsame, by simp⟩
          · exact ⟨k + 1, by omega, hlists.succ hlisted, by simp⟩

theorem collect_lists (hpages : source.Paginates param) (hdecimal : ReadsDigits web.decimal)
    (hsplit : splitUrl web source.options.url = .ok parts) (collectedAt : Instant) :
    Dialogue.Ensures (fun _ _ => True)
      (source.Paged web parts param source.options.maxPages.toNat)
      (source.collect web policy collectedAt) [] := by
  unfold collect
  apply Dialogue.Ensures.lift_bind
  have hfirst : source.firstUrl web =
      withParam web source.options.url param source.options.startPage := by
    unfold firstUrl
    rw [hpages.param]
  rw [hfirst]
  cases hstart : strInt source.options.startPage with
  | error e =>
      rw [withParam_error hsplit hstart]
      exact ⟨0, Nat.zero_le _, rfl, by simp⟩
  | ok s =>
      rw [withParam_text hsplit param hstart]
      have hstart' : strInt (source.options.startPage + (0 : Nat)) = .ok s := by simpa using hstart
      have hrest : Dialogue.Ensures (fun _ _ => True)
          (source.Paged web parts param (0 + source.options.maxPages.toNat))
          (source.pages web policy collectedAt source.options.maxPages.toNat [] _) [] :=
        pages_lists hpages hdecimal hsplit collectedAt _ 0 (by simp) rfl (.inr ⟨s, hstart', rfl⟩)
      rw [Nat.zero_add] at hrest
      rw [(strInt_ok hstart).1]
      simpa [pageAddress] using hrest

end ApiSource

/-- Every address that is requested for a page is the configured one with the page's number, and
nothing else of it is another exactly if all its other parameters have values and are UTF-8. A run
that ends while there are items has listed all pages. -/
theorem page_parameter_changes_only_the_page (web : Web) (policy : FetchPolicy)
    (source : ApiSource) {param : Text} (hpages : source.Paginates param)
    (hdecimal : ReadsDigits web.decimal) (collectedAt : Instant) {trace : Trace}
    {out : Except Raised Unit} (hrun : (source.collect web policy collectedAt).Run trace out) :
    (∀ (k : Nat) url text, (listings trace)[k]? = some (url, text) →
      k < source.options.maxPages.toNat ∧
        ∃ parts, splitUrl web source.options.url = .ok parts ∧
          (IsPage web parts param (source.options.startPage + k) url ↔ Preserved parts param)) ∧
      (out = .ok () → param ≠ [] → ¬source.Ended web trace →
        (listings trace).length = source.options.maxPages.toNat) := by
  cases hsplit : splitUrl web source.options.url with
  | error e =>
      have hfirst : source.firstUrl web = .error e := by
        unfold ApiSource.firstUrl
        rw [hpages.param]
        change withParam web source.options.url param source.options.startPage = _
        unfold withParam
        rw [hsplit]
        rfl
      unfold ApiSource.collect at hrun
      rw [hfirst] at hrun
      obtain ⟨rfl, rfl⟩ := hrun
      exact ⟨by simp [listings], by simp⟩
  | ok parts =>
      obtain ⟨-, m, hm, hlists, hends⟩ :=
        (ApiSource.collect_lists hpages hdecimal hsplit collectedAt).run hrun
      rw [List.nil_append] at hlists hends
      have hlength : (listings trace).length = m := by
        have hcount := congrArg List.length hlists
        simpa using hcount
      constructor
      · intro k url text hk
        have hbound : k < m := by
          obtain ⟨hlt, -⟩ := List.getElem?_eq_some_iff.mp hk
          omega
        have hurl : url = pageAddress parts param (source.options.startPage + k) := by
          have hget := congrArg (fun l => l[k]?) hlists
          simp only [List.getElem?_map, hk, List.getElem?_range hbound] at hget
          exact Option.some.inj hget
        rw [hurl]
        exact ⟨by omega, parts, rfl, isPage_iff hsplit param _⟩
      · intro hout hparam hitems
        rcases hends hout with htotal | hempty | hended
        · rw [hlength, htotal]
        · exact absurd hempty hparam
        · exact absurd hended hitems

private def generous : Surroundings where
  server _ url := .answered (.of url 200 [] "[{}]")
  entries _ := none
  clock _ := 0

private def itemWeb : Web := { Web.plain with loads := fun _ => .ok (.arr [.obj []]) }

private def searchSource (url : String) : ApiSource where
  name := "api".toList
  mapping := []
  options :=
    { url := url.toList
      headers := []
      itemsPath := none
      nextPath := none
      pageParam := some "page".toList
      startPage := 1
      maxPages := 2
      externalIdField := none
      sourceUrlField := none }

private theorem itemWeb_digits : ReadsDigits itemWeb.decimal := fun _ hc => if_pos hc

theorem page_parameter_changes_only_the_page_search :
    let run := generous.run ((searchSource "http://a.fi/leads?city=Oulu").collect itemWeb .default 0)
    run.2 = .ok () ∧
      (∀ (k : Nat) url text, (listings run.1)[k]? = some (url, text) →
        k < 2 ∧ ∃ parts, splitUrl itemWeb "http://a.fi/leads?city=Oulu".toList = .ok parts ∧
          (IsPage itemWeb parts "page".toList (1 + k) url ↔ Preserved parts "page".toList)) :=
  ⟨by decide +kernel,
    (page_parameter_changes_only_the_page itemWeb .default
      (searchSource "http://a.fi/leads?city=Oulu") ⟨rfl, rfl⟩ itemWeb_digits 0
      (Dialogue.exec_run _ _ [])).1⟩

/-- The empty field of a search is dropped. -/
theorem page_parameter_drops_blank_values :
    ¬∀ (web : Web) (policy : FetchPolicy) (source : ApiSource) (param : Text)
      (collectedAt : Instant) (trace : Trace) (out : Except Raised Unit),
      source.Paginates param → ReadsDigits web.decimal →
        (source.collect web policy collectedAt).Run trace out →
          ∀ (k : Nat) url text, (listings trace)[k]? = some (url, text) →
            ∃ parts, splitUrl web source.options.url = .ok parts ∧
              IsPage web parts param (source.options.startPage + k) url := by
  intro h
  have hlisted : (listings (generous.run
      ((searchSource "http://a.fi/leads?q=&city=Oulu").collect itemWeb .default 0)).1)[0]? =
        some ("http://a.fi/leads?city=Oulu&page=1".toList, "[{}]".toList) := by decide +kernel
  obtain ⟨parts, hparts, hpage⟩ := h itemWeb .default (searchSource "http://a.fi/leads?q=&city=Oulu")
    "page".toList 0 _ _ ⟨rfl, rfl⟩ itemWeb_digits (Dialogue.exec_run generous.answer _ []) 0 _ _
    hlisted
  have hsplit : splitUrl itemWeb "http://a.fi/leads?q=&city=Oulu".toList =
      .ok ⟨"http".toList, "a.fi".toList, "/leads".toList, "q=&city=Oulu".toList, []⟩ := by rfl
  obtain rfl := Except.ok.inj (hsplit.symm.trans hparts)
  have haddress : "http://a.fi/leads?city=Oulu&page=1".toList = pageAddress
      ⟨"http".toList, "a.fi".toList, "/leads".toList, "q=&city=Oulu".toList, []⟩ "page".toList
        (1 + (0 : Nat)) := by decide +kernel
  rw [haddress] at hpage
  have hkept := (isPage_iff hsplit "page".toList (1 + (0 : Nat))).mp hpage
  obtain ⟨hvalue, -⟩ := hkept (encodeUtf8 "q".toList, []) (by decide +kernel) (by decide)
  exact hvalue rfl

/-- Escapes of another encoding are replaced. -/
example : pageAddress ⟨"http".toList, "a.fi".toList, "/leads".toList, "city=J%E4rvi".toList, []⟩
    "page".toList 1 = "http://a.fi/leads?city=J%EF%BF%BDrvi&page=1".toList := by
  decide +kernel

end LeadPipe
