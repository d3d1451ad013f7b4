import LeadPipe.Normalization.Fields
import LeadPipe.Python.UrlLaws

/-!
# What `normalize_url` writes

A text is kept as written, or read as the address of a site and written in the normal form.
The normal form splits into the parts it was put together from.
-/

namespace LeadPipe

open Urllib

variable (env : Platform)

theorem mem_collapseSpace {space : Char → Bool} (inRun : Bool) {s : Text} {c : Char}
    (h : c ∈ collapseSpace space inRun s) : c = ' ' ∨ (c ∈ s ∧ space c = false) := by
  induction s generalizing inRun with
  | nil => cases h
  | cons d ds ih =>
      have hrest {inRun : Bool} (h : c ∈ collapseSpace space inRun ds) :
          c = ' ' ∨ (c ∈ d :: ds ∧ space c = false) :=
        (ih inRun h).imp_right fun hmem => ⟨List.mem_cons_of_mem _ hmem.1, hmem.2⟩
      unfold collapseSpace at h
      split at h
      · split at h
        · exact hrest h
        · rcases List.mem_cons.mp h with rfl | h
          · exact .inl rfl
          · exact hrest h
      · rename_i hspace
        rcases List.mem_cons.mp h with rfl | h
        · exact .inr ⟨List.mem_cons_self, by simpa using hspace⟩
        · exact hrest h

theorem mem_strip {s : Text} {c : Char} (h : c ∈ strip env s) : c ∈ s :=
  (List.dropWhile_suffix _).subset ((List.rdropWhile_prefix _ _).subset h)

variable {env}

theorem mem_cleanText {v text : Text} (h : cleanText env (some v) = some text) {c : Char}
    (hc : c ∈ text) : c = ' ' ∨ (c ∈ v ∧ env.unicode.isSpace c = false) := by
  rw [cleanText, Option.bind_some, Text.orNone] at h
  split at h
  · cases h
  · obtain rfl := Option.some.inj h
    exact mem_collapseSpace false (mem_strip env hc)

theorem unsafe_space {uc : Unicode} {c : Char} (h : isUnsafeByte c = true) :
    uc.isSpace c = true := by
  simp only [isUnsafeByte, Bool.or_eq_true, beq_iff_eq] at h
  rcases h with (rfl | rfl) | rfl
  all_goals
    rw [uc.isSpace_ascii _ (by decide)]
    rfl

theorem cleanText_safe {value : Option Text} {text : Text} (h : cleanText env value = some text) :
    ∀ c ∈ text, isUnsafeByte c = false := by
  obtain ⟨v, rfl⟩ : ∃ v, value = some v := by
    cases value with
    | none => cases h
    | some v => exact ⟨v, rfl⟩
  intro c hc
  rcases mem_cleanText h hc with rfl | ⟨-, hspace⟩
  · rfl
  · rw [← Bool.not_eq_true]
    intro hunsafe
    rw [unsafe_space hunsafe] at hspace
    cases hspace

def isSiteChar (c : Char) : Bool := isHostChar c || c == '-' || c == '.'

theorem hostChar_cases {c : Char} (h : isHostChar c = true) :
    c.isLower = true ∨ c.isDigit = true := by
  simp only [isHostChar, Bool.or_eq_true, Bool.and_eq_true, decide_eq_true_eq, Char.le_def,
    UInt32.le_iff_toNat_le] at h
  rw [Text.isLower_iff, Text.isDigit_iff]
  exact h

theorem siteChar_plain {c : Char} (h : isSiteChar c = true) : isPlainHostChar c = true := by
  simp only [isSiteChar, Bool.or_eq_true, beq_iff_eq] at h
  rcases h with (hhost | rfl) | rfl
  · have halnum : c.isAlphanum = true := by
      rw [Text.isAlphanum_iff]
      exact (hostChar_cases hhost).imp_left fun hlower => Text.isAlpha_iff.mpr (.inr hlower)
    have hcolon : c ≠ ':' := by
      rintro rfl
      exact absurd halnum (by decide)
    simp [isPlainHostChar, isAuthorityChar, halnum, hcolon]
  · rfl
  · rfl

theorem siteChar_toLower {c : Char} (h : isSiteChar c = true) : c.toLower = c := by
  apply Text.toLower_of_not_upper
  simp only [isSiteChar, Bool.or_eq_true, beq_iff_eq] at h
  rcases h with (hhost | rfl) | rfl
  · have hrange := hostChar_cases hhost
    rw [Text.isLower_iff, Text.isDigit_iff] at hrange
    rw [Text.isUpper_iff]
    omega
  · decide
  · decide

theorem label_chars {label : Text} (h : isHostLabel label = true) :
    ∀ c ∈ label, isSiteChar c = true := by
  unfold isHostLabel at h
  split at h
  · intro c hc
    have hchar := List.all_eq_true.mp (Bool.and_eq_true_iff.mp h).2 c hc
    simp only [Bool.or_eq_true] at hchar
    simp only [isSiteChar, Bool.or_eq_true]
    exact .inl hchar
  · cases h

/-- `HOSTNAME` without the line feed its `$` passes over. -/
def isBareHostname (host : Text) : Bool :=
  2 ≤ (host.splitOn '.').length && (host.splitOn '.').all isHostLabel

theorem bareHostname_chars {host : Text} (h : isBareHostname host = true) :
    ∀ c ∈ host, isSiteChar c = true := by
  intro c hc
  have hjoin : Text.join ['.'] (host.splitOn '.') = host := List.intercalate_splitOn '.'
  rw [← hjoin] at hc
  rcases Text.mem_join hc with hdot | ⟨label, hlabel, hc⟩
  · obtain rfl : c = '.' := by simpa using hdot
    rfl
  · exact label_chars (List.all_eq_true.mp (Bool.and_eq_true_iff.mp h).2 label hlabel) c hc

def bareHost (host : Text) : Text := if host.getLast? = some '\n' then host.dropLast else host

theorem isHostname_eq (host : Text) : isHostname host = isBareHostname (bareHost host) := rfl

theorem bareHost_cases (host : Text) : host = bareHost host ∨ host = bareHost host ++ ['\n'] := by
  unfold bareHost
  split
  · rename_i hlast
    exact .inr (List.dropLast_append_getLast? _ hlast).symm
  · exact .inl rfl

theorem bareHost_of_chars {host : Text} (h : ∀ c ∈ host, isSiteChar c = true) :
    bareHost host = host := by
  refine if_neg fun hlast => ?_
  exact absurd (h _ (List.mem_of_getLast? hlast)) (by decide)

theorem bareHost_snoc (host : Text) : bareHost (host ++ ['\n']) = host := by
  simp [bareHost]

theorem isHostname_of_chars {host : Text} (h : ∀ c ∈ host, isSiteChar c = true) :
    isHostname host = isBareHostname host := by
  rw [isHostname_eq, bareHost_of_chars h]

theorem hostname_dot {host : Text} (h : isHostname host = true) : '.' ∈ host := by
  have hbare : '.' ∈ bareHost host := by
    by_contra hno
    rw [isHostname_eq, isBareHostname, List.splitOn_eq_singleton hno] at h
    simp at h
  rcases bareHost_cases host with heq | heq
  · rwa [heq]
  · rw [heq]
    exact List.mem_append_left _ hbare

theorem filter_bareHost {host : Text} (h : ∀ c ∈ bareHost host, isSiteChar c = true) :
    host.filter (fun c => !isUnsafeByte c) = bareHost host := by
  have hkept : (bareHost host).filter (fun c => !isUnsafeByte c) = bareHost host := by
    rw [List.filter_eq_self]
    intro c hc
    have hplain := siteChar_plain (h c hc)
    rw [authorityChar_safe (Bool.and_eq_true_iff.mp hplain).1]
    rfl
  rcases bareHost_cases host with heq | heq
  · rw [heq, bareHost_of_chars h]
    exact hkept
  · conv_lhs => rw [heq]
    rw [List.filter_append, hkept]
    simp [isUnsafeByte]

/-- The host without a leading `www.`. -/
def siteHost (host : Text) : Text := Text.removePrefix wwwPrefix host

theorem mem_siteHost {host : Text} {c : Char} (h : c ∈ siteHost host) : c ∈ host := by
  unfold siteHost Text.removePrefix at h
  split at h
  · exact List.mem_of_mem_drop h
  · exact h

theorem siteHost_snoc (host : Text) : siteHost (host ++ ['\n']) = siteHost host ++ ['\n'] := by
  have hstart : Text.startsWith wwwPrefix (host ++ ['\n']) = Text.startsWith wwwPrefix host := by
    rw [Bool.eq_iff_iff, Text.startsWith, Text.startsWith, List.isPrefixOf_iff_prefix,
      List.isPrefixOf_iff_prefix, List.prefix_concat_iff]
    constructor
    · rintro (heq | hpre)
      · have hlast := congrArg List.getLast? heq
        rw [List.getLast?_concat] at hlast
        exact absurd hlast (by decide)
      · exact hpre
    · exact .inr
  unfold siteHost Text.removePrefix
  rw [hstart]
  split
  · rename_i hpre
    have hle := (List.isPrefixOf_iff_prefix.mp hpre).length_le
    rw [List.drop_append_of_le_length hle]
  · rfl

theorem bareHost_siteHost {host : Text} (h : ∀ c ∈ bareHost host, isSiteChar c = true) :
    bareHost (siteHost host) = siteHost (bareHost host) := by
  have hchars : ∀ c ∈ siteHost (bareHost host), isSiteChar c = true :=
    fun c hc => h c (mem_siteHost hc)
  rcases bareHost_cases host with heq | heq
  · rw [← heq] at hchars ⊢
    exact bareHost_of_chars hchars
  · conv_lhs => rw [heq, siteHost_snoc]
    exact bareHost_snoc _

theorem isHostname_chars {host : Text} (h : isHostname host = true) :
    ∀ c ∈ bareHost host, isSiteChar c = true :=
  bareHostname_chars h

theorem hostname_char {host : Text} (h : isHostname host = true) {c : Char} (hc : c ∈ host) :
    isSiteChar c = true ∨ c = '\n' := by
  rcases bareHost_cases host with heq | heq
  · rw [heq] at hc
    exact .inl (isHostname_chars h c hc)
  · rw [heq, List.mem_append, List.mem_singleton] at hc
    exact hc.imp_left (isHostname_chars h c)

/-- The line feed `HOSTNAME` passes over does not count. -/
theorem isHostname_siteHost {host : Text} (h : isHostname host = true) :
    isHostname (siteHost host) = isHostname (siteHost (bareHost host)) := by
  have hchars := isHostname_chars h
  rw [isHostname_eq, bareHost_siteHost hchars,
    isHostname_of_chars fun c hc => hchars c (mem_siteHost hc)]

theorem siteHost_cases (host : Text) : host = siteHost host ∨ host = wwwPrefix ++ siteHost host := by
  unfold siteHost Text.removePrefix
  split
  · rename_i hpre
    obtain ⟨rest, rfl⟩ := List.isPrefixOf_iff_prefix.mp hpre
    rw [List.drop_left]
    exact .inr rfl
  · exact .inl rfl

theorem siteHost_ne_nil {host : Text} (h : isHostname host = true) :
    siteHost (bareHost host) ≠ [] := by
  intro hempty
  rw [isHostname_eq] at h
  rcases siteHost_cases (bareHost host) with heq | heq
  · rw [heq, hempty] at h
    exact absurd h (by decide)
  · rw [heq, hempty] at h
    exact absurd h (by decide)

theorem siteHost_siteHost_ne_nil {host : Text} (h : isHostname host = true) :
    siteHost (siteHost (bareHost host)) ≠ [] := by
  intro hempty
  rcases siteHost_cases (siteHost (bareHost host)) with hinner | hinner
  · exact siteHost_ne_nil h (hinner.trans hempty)
  · rw [hempty, List.append_nil] at hinner
    rw [isHostname_eq] at h
    rcases siteHost_cases (bareHost host) with heq | heq
    · rw [heq, hinner] at h
      exact absurd h (by decide)
    · rw [heq, hinner] at h
      exact absurd h (by decide)

variable (env)

def hasScheme (text : Text) : Bool := Text.containsSub "://".toList text

def isWebScheme (scheme : Text) : Bool := scheme == "http".toList || scheme == "https".toList

/-- The text names a scheme, and neither of the web's. -/
def otherScheme (text : Text) : Bool :=
  hasScheme text && !(Text.startsWith "http://".toList (env.unicode.lower text) ||
    Text.startsWith "https://".toList (env.unicode.lower text))

def contactLink (text : Text) : Bool :=
  !hasScheme text && text.contains ':' &&
    (Text.startsWith "mailto:".toList (env.unicode.lower text) ||
      Text.startsWith "tel:".toList (env.unicode.lower text))

def withScheme (text : Text) : Text := if hasScheme text then text else "https://".toList ++ text

def webAddress (text : Text) : Option Text :=
  if otherScheme env text || contactLink env text then none else some (withScheme text)

structure Site where
  parts : SplitResult
  host : Text
  port : Option Nat

/-- The site behind a text, if its host is a host name and its port a number. -/
def readSite (text : Text) : Option Site :=
  (webAddress env text).bind fun address =>
    (urlsplit env.unicode env.isIPv6 address).bind fun parsed =>
      (parsed.hostname env.unicode).bind fun host =>
        parsed.port.bind fun port => if isHostname host then some ⟨parsed, host, port⟩ else none

namespace Site

variable (site : Site)

def portPart : Text :=
  match site.port with
  | some p =>
      if some p ≠ defaultPorts.get site.parts.scheme then ':' :: Text.ofNat p else []
  | none => []

def path : Text := Text.rstrip (· == '/') site.parts.path

def query : Text :=
  urlencode (sortParams ((parseQsl site.parts.query).filter fun p =>
    !trackingParams.contains (env.unicode.lower p.1)))

def address : Text :=
  urlunsplit site.parts.scheme (siteHost site.host ++ site.portPart) site.path (site.query env) []

end Site

/-- The text of a cleaned website after `normalize_url`. -/
def writtenSite (text : Text) : Text :=
  ((readSite env text).map fun site => site.address env).getD text

theorem normalizeUrl_eq (value : Option Text) :
    normalizeUrl env value = (cleanText env value).map (writtenSite env) := by
  unfold normalizeUrl
  congr 1
  funext text
  change (if otherScheme env text = true then text else if contactLink env text = true then text
    else _) = _
  have haddress : (if Text.containsSub "://".toList text = true then text
      else "https://".toList ++ text) = withScheme text := rfl
  unfold writtenSite readSite webAddress
  cases otherScheme env text with
  | true => rfl
  | false =>
      cases contactLink env text with
      | true => rfl
      | false =>
          simp only [Bool.or_self, Bool.false_eq_true, if_false, Option.bind_some, haddress]
          cases urlsplit env.unicode env.isIPv6 (withScheme text) with
          | none => rfl
          | some parsed =>
              simp only [Option.bind_some]
              cases parsed.hostname env.unicode with
              | none => rfl
              | some host =>
                  cases parsed.port with
                  | none => rfl
                  | some port =>
                      simp only [Option.bind_some]
                      cases isHostname host with
                      | false => rfl
                      | true =>
                          simp only [Bool.not_true, Bool.false_eq_true, if_false, if_true,
                            Option.map_some, Option.getD_some, Site.address, Site.path, Site.query,
                            Site.portPart, siteHost]
                          cases port with
                          | none => simp
                          | some p =>
                              by_cases hp : some p = defaultPorts.get parsed.scheme <;> simp [hp]

variable {env} {text : Text} {site : Site}

theorem writtenSite_some (h : readSite env text = some site) :
    writtenSite env text = site.address env := by
  unfold writtenSite
  rw [h]
  rfl

theorem writtenSite_none (h : readSite env text = none) : writtenSite env text = text := by
  unfold writtenSite
  rw [h]
  rfl

theorem webAddress_some {address : Text} (h : webAddress env text = some address) :
    otherScheme env text = false ∧ contactLink env text = false ∧ address = withScheme text := by
  unfold webAddress at h
  split at h
  · cases h
  · rename_i hweb
    simp only [Bool.or_eq_true, not_or, Bool.not_eq_true] at hweb
    exact ⟨hweb.1, hweb.2, (Option.some.inj h).symm⟩

theorem readSite_some (h : readSite env text = some site) :
    webAddress env text = some (withScheme text) ∧
      urlsplit env.unicode env.isIPv6 (withScheme text) = some site.parts ∧
      site.parts.hostname env.unicode = some site.host ∧ site.parts.port = some site.port ∧
      isHostname site.host = true := by
  obtain ⟨address, haddress, h⟩ := Option.bind_eq_some_iff.mp h
  obtain rfl := (webAddress_some haddress).2.2
  obtain ⟨parsed, hparsed, h⟩ := Option.bind_eq_some_iff.mp h
  obtain ⟨host, hhost, h⟩ := Option.bind_eq_some_iff.mp h
  obtain ⟨port, hport, h⟩ := Option.bind_eq_some_iff.mp h
  split at h
  · rename_i hname
    obtain rfl := Option.some.inj h
    exact ⟨haddress, hparsed, hhost, hport, hname⟩
  · cases h

theorem portPart_chars (site : Site) :
    site.portPart = [] ∨
      ∃ digits, site.portPart = ':' :: digits ∧ ∀ c ∈ digits, isAuthorityChar c = true := by
  unfold Site.portPart
  split
  · split
    · refine .inr ⟨_, rfl, fun c hc => ?_⟩
      have hdigit := Nat.isDigit_of_mem_toDigits (by decide) (by decide) hc
      rw [isAuthorityChar, Text.isAlphanum_iff.mpr (.inr hdigit)]
      rfl
    · exact .inl rfl
  · exact .inl rfl

theorem queryChars (site : Site) : ∀ c ∈ site.query env, c ≠ '#' ∧ isUnsafeByte c = false :=
  fun _ hc => queryChar_plain (urlencode_safe hc)

theorem rstrip_rooted {p : Char → Bool} {s : Text} (h : s = [] ∨ ∃ t, s = '/' :: t) :
    Text.rstrip p s = [] ∨ ∃ t, Text.rstrip p s = '/' :: t := by
  rcases h with rfl | ⟨t, rfl⟩
  · exact .inl rfl
  · obtain ⟨rest, hrest⟩ := List.rdropWhile_prefix p ('/' :: t)
    unfold Text.rstrip
    cases hstrip : List.rdropWhile p ('/' :: t) with
    | nil => exact .inl rfl
    | cons c cs =>
        rw [hstrip, List.cons_append] at hrest
        obtain ⟨rfl, -⟩ := List.cons.inj hrest
        exact .inr ⟨cs, rfl⟩

/-- The authority of the normal form, without a line feed `HOSTNAME` passed over. -/
def Site.authority (site : Site) : Text := siteHost (bareHost site.host) ++ site.portPart

theorem Site.splittable (h : readSite env text = some site) (hscheme : IsScheme site.parts.scheme) :
    Splittable site.parts.scheme site.authority site.path (site.query env) := by
  obtain ⟨-, hsplit, hhost, -, hname⟩ := readSite_some h
  have hrooted := rstrip_rooted (p := (· == '/')) (urlsplit_rooted hsplit (hostname_netloc hhost))
  refine ⟨hscheme, fun c hc => ?_, hrooted,
    fun c hc => urlsplit_path hsplit ((List.rdropWhile_prefix _ _).subset hc), queryChars site⟩
  rcases List.mem_append.mp hc with hc | hc
  · have hplain := siteChar_plain (isHostname_chars hname c (mem_siteHost hc))
    exact (Bool.and_eq_true_iff.mp hplain).1
  · rcases portPart_chars site with hport | ⟨digits, hport, hdigits⟩
    · rw [hport] at hc
      cases hc
    · rw [hport] at hc
      rcases List.mem_cons.mp hc with rfl | hc
      · rfl
      · exact hdigits c hc

theorem Site.rooted (h : readSite env text = some site) :
    site.path = [] ∨ ∃ p, site.path = '/' :: p := by
  obtain ⟨-, hsplit, hhost, -, -⟩ := readSite_some h
  exact rstrip_rooted (urlsplit_rooted hsplit (hostname_netloc hhost))

/-- The normal form splits into the parts it was put together from. -/
theorem Site.urlsplit_address (h : readSite env text = some site)
    (hscheme : IsScheme site.parts.scheme) :
    urlsplit env.unicode env.isIPv6 (site.address env) =
      some ⟨site.parts.scheme, site.authority, site.path, site.query env, []⟩ := by
  obtain ⟨-, -, -, -, hname⟩ := readSite_some h
  have hchars := isHostname_chars hname
  have hbare : ∀ c ∈ siteHost (bareHost site.host), isSiteChar c = true :=
    fun c hc => hchars c (mem_siteHost hc)
  have hfed : (siteHost site.host).filter (fun c => !isUnsafeByte c) =
      siteHost (bareHost site.host) := by
    rw [← bareHost_siteHost hchars] at hbare ⊢
    exact filter_bareHost hbare
  have hkept : (siteHost (bareHost site.host)).filter (fun c => !isUnsafeByte c) =
      siteHost (bareHost site.host) := by
    have hsame := bareHost_of_chars hbare
    conv_rhs => rw [← hsame]
    rw [← hsame] at hbare
    exact filter_bareHost hbare
  -- a line feed in the authority is dropped before anything is split
  have hstripped : stripped (site.address env) =
      stripped (urlunsplit site.parts.scheme site.authority site.path (site.query env) []) := by
    unfold Site.address Site.authority
    rw [urlunsplit_rooted (Site.rooted h), urlunsplit_rooted (Site.rooted h),
      stripped_scheme hscheme, stripped_scheme hscheme]
    simp only [List.filter_cons, List.filter_append, hfed, hkept]
  have hround := (Site.splittable h hscheme).urlsplit env.unicode env.isIPv6
  rw [urlsplit_eq] at hround ⊢
  rwa [hstripped]

theorem Site.authority_address (h : readSite env text = some site)
    (hscheme : site.parts.scheme = []) :
    (Urllib.authority (splitScheme (stripped (site.address env))).2).1 = [] := by
  have haddress : stripped (site.address env) = ':' :: (stripped (site.address env)).drop 1 := by
    unfold Site.address
    rw [urlunsplit_rooted (Site.rooted h), hscheme]
    rfl
  rw [haddress]
  generalize (stripped (site.address env)).drop 1 = rest
  have hpart : Text.partition ':' (':' :: rest) = ([], true, rest) :=
    Text.partition_append List.not_mem_nil rest
  have hsplit : splitScheme (':' :: rest) = ([], ':' :: rest) := by
    unfold splitScheme
    rw [hpart]
  rw [hsplit]
  rfl

theorem hostname_address {site : Site} (h : readSite env text = some site) {parsed : SplitResult}
    (hnetloc : parsed.netloc = site.authority) :
    parsed.hostname env.unicode = some (siteHost (bareHost site.host)) := by
  obtain ⟨-, -, -, -, hname⟩ := readSite_some h
  have hchars : ∀ c ∈ siteHost (bareHost site.host), isSiteChar c = true :=
    fun c hc => isHostname_chars hname c (mem_siteHost hc)
  have hlower : (siteHost (bareHost site.host)).map Char.toLower = siteHost (bareHost site.host) :=
    (List.map_congr_left fun c hc => siteChar_toLower (hchars c hc)).trans (List.map_id _)
  exact hostname_plain (fun c hc => siteChar_plain (hchars c hc)) hlower (siteHost_ne_nil hname)
    (hostinfo_plain (fun c hc => siteChar_plain (hchars c hc)) (portPart_chars site) hnetloc)

end LeadPipe
