import LeadPipe.Normalization.Variants
import LeadPipe.Python.Queries

/-!
# The normal form, normalised again

Every step of `normalize_url` has nothing left to do on a normal form but two: the host can have
another `www.` to lose, and a blank at the end of the path stands at the end of the text once the
query behind it is gone.
-/

namespace LeadPipe

open Framework Urllib

variable {env : Platform} {text : Text} {site : Site}

theorem front_of_colon {a b l : Text} (ha : a ++ [':'] <+: l) (hb : b ++ [':'] <+: l)
    (hcolon : ':' ∉ a) (hcolon' : ':' ∉ b) : a = b := by
  obtain ⟨x, rfl⟩ := ha
  obtain ⟨y, hy⟩ := hb
  have hfirst := congrArg (fun l => (Text.partition ':' l).1) hy
  simp only [List.append_assoc, List.singleton_append] at hfirst
  rw [Text.partition_append hcolon, Text.partition_append hcolon'] at hfirst
  exact hfirst.symm

theorem lower_head (hlower : env.unicode.LowersFront) {c : Char} (hc : c.toNat < 128)
    (rest : Text) : (env.unicode.lower (c :: rest)).head? = some c.toLower := by
  have hascii : Text.isAscii [c] = true := by simpa [Text.isAscii] using hc
  obtain ⟨more, hmore⟩ := hlower [c] rest hascii
  rw [← List.singleton_append, ← hmore]
  rfl

theorem control_ascii {c : Char} (h : isC0OrSpace c = true) : c.toNat < 128 ∧ c.toLower = c := by
  have hle : c.toNat ≤ 32 := of_decide_eq_true h
  refine ⟨by omega, Text.toLower_of_not_upper ?_⟩
  rw [Text.isUpper_iff]
  omega

theorem web_front (hlower : env.unicode.LowersFront)
    (hclean : ∀ c ∈ text, isUnsafeByte c = false)
    (hweb : Text.startsWith "http://".toList (env.unicode.lower text) = true ∨
      Text.startsWith "https://".toList (env.unicode.lower text) = true)
    (hnetloc : (authority (splitScheme (stripped text)).2).1 ≠ []) :
    isWebScheme (splitScheme (stripped text)).1 = true := by
  have hhead : (env.unicode.lower text).head? = some 'h' := by
    rcases hweb with hpre | hpre
    all_goals
      obtain ⟨rest, hrest⟩ := List.isPrefixOf_iff_prefix.mp hpre
      rw [← hrest]
      rfl
  have hcolon : "http".toList ++ [':'] <+: env.unicode.lower text ∨
      "https".toList ++ [':'] <+: env.unicode.lower text := by
    refine hweb.imp (fun hpre => ?_) fun hpre => ?_
    all_goals exact List.IsPrefix.trans (by decide) (List.isPrefixOf_iff_prefix.mp hpre)
  -- the text does not start with a control character or a slash
  have hfirst {c : Char} {rest : Text} (htext : text = c :: rest) (hc : c.toNat < 128)
      (hsame : c.toLower = c) : c = 'h' := by
    rw [htext, lower_head hlower hc, hsame] at hhead
    exact Option.some.inj hhead
  have hkept : stripped text = text := by
    rw [stripped_clean hclean]
    cases text with
    | nil => rfl
    | cons c rest =>
        apply List.dropWhile_cons_of_neg
        intro hcontrol
        obtain ⟨hascii, hsame⟩ := control_ascii hcontrol
        rw [hfirst rfl hascii hsame] at hcontrol
        exact absurd hcontrol (by decide)
  rw [hkept] at hnetloc ⊢
  rcases splitScheme_cases text with hsplit | ⟨written, rest, rfl, hscheme, hsplit⟩
  · rw [hsplit] at hnetloc
    obtain ⟨after, hafter⟩ := authority_starts hnetloc
    exact absurd (hfirst hafter (by decide) (by decide)) (by decide)
  · obtain ⟨-, hchars⟩ := hscheme.written
    have hascii : Text.isAscii (written ++ [':']) = true := by
      rw [Text.isAscii_iff]
      intro c hc
      rcases List.mem_append.mp hc with hc | hc
      · exact schemeChar_ascii (List.all_eq_true.mp hchars c hc)
      · rw [List.mem_singleton.mp hc]
        decide
    have hfront := hlower (written ++ [':']) rest hascii
    rw [List.map_append, List.append_assoc, List.singleton_append] at hfront
    have hno : ':' ∉ written.map Char.toLower :=
      fun hmem => absurd (List.all_eq_true.mp hscheme.chars _ hmem) (by decide)
    have hfound : written.map Char.toLower = "http".toList ∨
        written.map Char.toLower = "https".toList :=
      hcolon.imp (fun hpre => front_of_colon hfront hpre hno (by decide))
        fun hpre => front_of_colon hfront hpre hno (by decide)
    rw [hsplit, isWebScheme, Bool.or_eq_true, beq_iff_eq, beq_iff_eq]
    exact hfound

/-- Whatever is read as a site has one of the web's schemes. -/
theorem readSite_scheme (hlower : env.unicode.LowersFront)
    (hclean : ∀ c ∈ text, isUnsafeByte c = false) (h : readSite env text = some site) :
    isWebScheme site.parts.scheme = true := by
  obtain ⟨haddress, hsplit, hhost, -, -⟩ := readSite_some h
  have hnetloc := hostname_netloc hhost
  obtain ⟨-, hparts⟩ := urlsplit_some hsplit
  rw [hparts] at hnetloc ⊢
  cases hscheme : hasScheme text with
  | true =>
      have hsame : withScheme text = text := if_pos hscheme
      rw [hsame] at hnetloc ⊢
      apply web_front hlower hclean ?_ hnetloc
      by_contra hno
      rw [not_or, Bool.not_eq_true, Bool.not_eq_true] at hno
      have hother : otherScheme env text = true := by
        rw [otherScheme, hscheme, hno.1, hno.2]
        rfl
      rw [webAddress, hother] at haddress
      cases haddress
  | false =>
      have hhttps : withScheme text = "https".toList ++ ':' :: '/' :: '/' :: text := by
        rw [withScheme, hscheme]
        rfl
      rw [hhttps, stripped_scheme .https, IsScheme.https.split]
      rfl

theorem isScheme_web {scheme : Text} (h : isWebScheme scheme = true) : IsScheme scheme := by
  rw [isWebScheme, Bool.or_eq_true, beq_iff_eq, beq_iff_eq] at h
  rcases h with rfl | rfl
  · exact .http
  · exact .https

theorem readSite_host (huc : env.unicode.LowersText) (h : readSite env text = some site) :
    ∀ c ∈ site.host, isSiteChar c = true := by
  obtain ⟨-, hsplit, hhost, -, hname⟩ := readSite_some h
  intro c hc
  rcases hostname_char hname hc with hchar | rfl
  · exact hchar
  · have hinfo := mem_hostname huc hhost hc (by decide)
    exact absurd (urlsplit_netloc hsplit (mem_hostinfo hinfo).2).2 (by decide)

theorem port_le {r : SplitResult} {p : Nat} (h : r.port = some (some p)) : p ≤ 65535 := by
  unfold SplitResult.port at h
  split at h
  · cases h
  · split at h
    · rename_i hok
      obtain rfl := Option.some.inj (Option.some.inj h)
      exact of_decide_eq_true (Bool.and_eq_true_iff.mp hok).2
    · cases h

theorem port_ofNat {r : SplitResult} {host : Text} {p : Nat} (hp : p ≤ 65535)
    (hinfo : r.hostinfo = (host, some (Text.ofNat p))) : r.port = some (some p) := by
  have hdigits : (Text.ofNat p).isDigit = true := by
    have hne : Text.ofNat p ≠ [] := Nat.toDigits_ne_nil
    have hall : (Text.ofNat p).all Char.isDigit = true :=
      List.all_eq_true.mpr fun c hc => Nat.isDigit_of_mem_toDigits (by decide) (by decide) hc
    simp [Text.isDigit, hne, hall]
  have hlength : (Text.ofNat p).length ≤ SplitResult.maxIntDigits := by
    have hfive : (Nat.toDigits 10 p).length ≤ 5 :=
      (Nat.length_toDigits_le_iff (by decide) (by decide)).mpr (by omega)
    exact hfive.trans (by decide)
  have hvalue : (Text.ofNat p).toNat = p := Nat.ofDigitChars_ten_toDigits
  unfold SplitResult.port
  rw [hinfo]
  simp [hdigits, hlength, hvalue, hp]

theorem portPart_again (site : Site) (parts : SplitResult) {host : Text}
    (hport : site.parts.port = some site.port) (hscheme : parts.scheme = site.parts.scheme)
    (hinfo : parts.hostinfo = (host, Text.orNone (site.portPart.drop 1))) :
    ∃ port, parts.port = some port ∧ ∀ h, Site.portPart ⟨parts, h, port⟩ = site.portPart := by
  have hcases : site.portPart = [] ∨ ∃ p, site.port = some p ∧
      some p ≠ defaultPorts.get site.parts.scheme ∧ site.portPart = ':' :: Text.ofNat p := by
    unfold Site.portPart
    split
    · rename_i p hp
      split
      · rename_i hother
        exact .inr ⟨p, hp, hother, rfl⟩
      · exact .inl rfl
    · exact .inl rfl
  rcases hcases with hnone | ⟨p, hp, hother, hsome⟩
  · refine ⟨none, ?_, fun h => hnone.symm⟩
    rw [hnone] at hinfo
    unfold SplitResult.port
    rw [hinfo]
    rfl
  · rw [hp] at hport
    refine ⟨some p, ?_, fun h => ?_⟩
    · apply port_ofNat (port_le hport)
      have hne : (Text.ofNat p).isEmpty = false := by
        have hne : Text.ofNat p ≠ [] := Nat.toDigits_ne_nil
        simpa using hne
      rw [hinfo, hsome, List.drop_one, List.tail_cons, Text.orNone, hne]
      rfl
    · rw [hsome]
      unfold Site.portPart
      dsimp only
      rw [hscheme, if_pos hother]

def Site.kept (env : Platform) (site : Site) : List (Text × Text) :=
  (parseQsl site.parts.query).filter fun p => !trackingParams.contains (env.unicode.lower p.1)

theorem query_eq_nil : site.query env = [] ↔ site.kept env = [] := by
  have hquery : site.query env = urlencode (sortParams (site.kept env)) := rfl
  constructor
  · intro hempty
    have hread := parseQsl_urlencode (sortParams (site.kept env))
    rw [← hquery, hempty] at hread
    exact ranked_eq_nil.mp hread.symm
  · intro hempty
    rw [hquery, hempty]
    rfl

theorem query_again {parts : SplitResult} {host : Text} {port : Option Nat}
    (hquery : parts.query = site.query env) :
    Site.query env ⟨parts, host, port⟩ = site.query env := by
  have hread : parseQsl parts.query = sortParams (site.kept env) := by
    rw [hquery]
    exact parseQsl_urlencode _
  have hkept : (sortParams (site.kept env)).filter
      (fun p => !trackingParams.contains (env.unicode.lower p.1)) =
        sortParams (site.kept env) := by
    rw [List.filter_eq_self]
    intro p hp
    exact (List.mem_filter.mp (mem_ranked.mp hp)).2
  have hsorted : sortParams (sortParams (site.kept env)) = sortParams (site.kept env) :=
    ranked_ranked _
  unfold Site.query
  dsimp only
  rw [hread, hkept, hsorted]
  rfl

theorem rstrip_rstrip (p : Char → Bool) (s : Text) :
    Text.rstrip p (Text.rstrip p s) = Text.rstrip p s :=
  List.rdropWhile_idempotent p s

theorem urlsplit_path_within {address : Text} {r : SplitResult}
    (hclean : ∀ c ∈ address, isUnsafeByte c = false)
    (h : urlsplit env.unicode env.isIPv6 address = some r) : r.path <:+: address := by
  obtain ⟨-, rfl⟩ := urlsplit_some h
  have hpartition (sep : Char) (s : Text) : (Text.partition sep s).1 <+: s := by
    rcases Text.partition_cases sep s with ⟨-, hpart⟩ | ⟨before, after, -, rfl, hpart⟩
    · rw [hpart]
    · rw [hpart]
      exact List.prefix_append _ _
  have hpath (rest : Text) :
      (Text.partition '?' (Text.partition '#' rest).1).1 <+: rest :=
    (hpartition '?' _).trans (hpartition '#' rest)
  have hauthority (rest : Text) : (authority rest).2 <:+ rest := by
    unfold authority
    split
    · exact (List.dropWhile_suffix _).trans (List.drop_suffix 2 rest)
    · exact List.suffix_rfl
  have hscheme : (splitScheme (stripped address)).2 <:+ stripped address := by
    rcases splitScheme_cases (stripped address) with hsplit | ⟨scheme, rest, heq, -, hsplit⟩
    · rw [hsplit]
    · rw [hsplit]
      exact ⟨scheme ++ [':'], by rw [heq]; simp⟩
  have hstripped : stripped address <:+ address := by
    rw [stripped_clean hclean]
    exact List.dropWhile_suffix _
  exact (hpath _).isInfix.trans ((hauthority _).trans (hscheme.trans hstripped)).isInfix

section Written

variable (env) (site)

def Site.written (path : Text) : Text :=
  urlunsplit site.parts.scheme site.authority path (site.query env) []

def Site.writtenParts (path : Text) : SplitResult :=
  ⟨site.parts.scheme, site.authority, path, site.query env, []⟩

/-- In front of the path there is nothing to clean. -/
def Site.front : Text := site.parts.scheme ++ ':' :: '/' :: '/' :: site.authority

variable {env site} {path : Text}

theorem Site.written_eq (hpath : path = [] ∨ ∃ p, path = '/' :: p) :
    site.written env path = site.front ++ (path ++ queryPart (site.query env)) := by
  unfold Site.written Site.front
  rw [urlunsplit_rooted hpath]
  simp

theorem address_eq (huc : env.unicode.LowersText) (h : readSite env text = some site) :
    site.address env = site.written env site.path := by
  unfold Site.address Site.written Site.authority
  rw [bareHost_of_chars (readSite_host huc h)]

/-- What was read is a web address. -/
structure Site.Read (env : Platform) (site : Site) (text : Text) : Prop where
  cleaned : Cleaned env.unicode text
  read : readSite env text = some site
  web : isWebScheme site.parts.scheme = true
  host : ∀ c ∈ site.host, isSiteChar c = true

theorem Site.Read.of_cleaned (huc : env.unicode.LowersText) (hlower : env.unicode.LowersFront)
    {value : Option Text} (htext : cleanText env value = some text)
    (h : readSite env text = some site) : site.Read env text where
  cleaned := cleanText_cleaned htext
  read := h
  web := readSite_scheme hlower (cleanText_safe htext) h
  host := readSite_host huc h

theorem queryPart_noSpace : ∀ c ∈ queryPart (site.query env), env.unicode.isSpace c = false := by
  intro c hc
  unfold queryPart at hc
  split at hc
  · cases hc
  · rcases List.mem_cons.mp hc with rfl | hc
    · exact visible_space (by decide) _
    · exact queryChar_space (urlencode_safe hc) _

namespace Site.Read

variable (h : site.Read env text)

include h

theorem splittable : Splittable site.parts.scheme site.authority site.path (site.query env) :=
  Site.splittable h.read (isScheme_web h.web)

theorem front_noSpace : ∀ c ∈ site.front, env.unicode.isSpace c = false := by
  have hscheme : ∀ c ∈ site.parts.scheme ++ "://".toList, 32 < c.toNat ∧ c.toNat < 128 := by
    have hweb := h.web
    rw [isWebScheme, Bool.or_eq_true, beq_iff_eq, beq_iff_eq] at hweb
    rcases hweb with heq | heq
    all_goals
      rw [heq]
      exact Text.forall_of_all (by decide)
  have hsplit : site.front = (site.parts.scheme ++ "://".toList) ++ site.authority := by
    simp [Site.front]
  intro c hc
  rw [hsplit] at hc
  rcases List.mem_append.mp hc with hc | hc
  · exact visible_space (hscheme c hc) _
  · exact authorityText_space h.splittable.netloc _ c hc

theorem path_tidy : Tidy env.unicode site.path := by
  obtain ⟨-, hsplit, -, -, -⟩ := readSite_some h.read
  have htidy : Tidy env.unicode (withScheme text) ∧
      ∀ c ∈ withScheme text, isUnsafeByte c = false := by
    unfold withScheme
    split
    · exact ⟨h.cleaned.tidy, h.cleaned.safe⟩
    · have hscheme : ∀ c ∈ "https://".toList,
          32 < c.toNat ∧ c.toNat < 128 ∧ isUnsafeByte c = false := Text.forall_of_all (by decide)
      have hspace : ∀ c ∈ "https://".toList, env.unicode.isSpace c = false :=
        fun c hc => visible_space ⟨(hscheme c hc).1, (hscheme c hc).2.1⟩ _
      constructor
      · apply (Tidy.of_no_space hspace).append h.cleaned.tidy
        intro c hc hblank
        rw [hspace c (List.mem_of_getLast? hc)] at hblank
        cases hblank
      · intro c hc
        exact (List.mem_append.mp hc).elim (fun hc => (hscheme c hc).2.2) (h.cleaned.safe c)
  exact htidy.1.part ((Text.rstrip_within _ _).trans (urlsplit_path_within htidy.2 hsplit))

/-- The normal form is read as a site of its own if its host is still a host name. -/
theorem read_written (hlower : env.unicode.LowersFront)
    (hpath : path = [] ∨ ∃ p, path = '/' :: p)
    (hchars : ∀ c ∈ path, c ≠ '?' ∧ c ≠ '#' ∧ isUnsafeByte c = false) :
    ∃ port, (∀ host, Site.portPart ⟨site.writtenParts env path, host, port⟩ = site.portPart) ∧
      readSite env (site.written env path) =
        if isHostname (siteHost site.host) then
          some ⟨site.writtenParts env path, siteHost site.host, port⟩
        else none := by
  obtain ⟨-, -, -, hport, hname⟩ := readSite_some h.read
  have hbare : bareHost site.host = site.host := bareHost_of_chars h.host
  have hsplit : urlsplit env.unicode env.isIPv6 (site.written env path) =
      some (site.writtenParts env path) := by
    have hparts : Splittable site.parts.scheme site.authority path (site.query env) :=
      { h.splittable with rooted := hpath, path := hchars }
    exact hparts.urlsplit env.unicode env.isIPv6
  have hplain : ∀ c ∈ siteHost (bareHost site.host), isPlainHostChar c = true :=
    fun c hc => siteChar_plain (isHostname_chars hname c (mem_siteHost hc))
  have hinfo : (site.writtenParts env path).hostinfo = _ :=
    hostinfo_plain hplain (portPart_chars site) rfl
  obtain ⟨port, hport', hagain⟩ := portPart_again site (site.writtenParts env path) hport rfl hinfo
  have hhost : (site.writtenParts env path).hostname env.unicode = some (siteHost site.host) := by
    have hfound : (site.writtenParts env path).hostname env.unicode = _ :=
      hostname_address h.read rfl
    rwa [hbare] at hfound
  have hweb : webAddress env (site.written env path) = some (site.written env path) := by
    have hscheme : site.parts.scheme = "http".toList ∨ site.parts.scheme = "https".toList := by
      have hweb := h.web
      rwa [isWebScheme, Bool.or_eq_true, beq_iff_eq, beq_iff_eq] at hweb
    have htext : site.written env path = site.parts.scheme ++
        ("://".toList ++ (site.authority ++ (path ++ queryPart (site.query env)))) := by
      rw [Site.written_eq hpath]
      simp [Site.front]
    obtain ⟨hread, haddress⟩ := read_named hlower hscheme rfl
      (site.authority ++ (path ++ queryPart (site.query env)))
    rw [haddress] at hread
    rw [htext, hread]
    rfl
  refine ⟨port, hagain, ?_⟩
  unfold readSite
  rw [hweb, Option.bind_some, hsplit, Option.bind_some, hhost, Option.bind_some, hport',
    Option.bind_some]

theorem writtenSite_written (hlower : env.unicode.LowersFront)
    (hpath : path = [] ∨ ∃ p, path = '/' :: p)
    (hchars : ∀ c ∈ path, c ≠ '?' ∧ c ≠ '#' ∧ isUnsafeByte c = false) :
    writtenSite env (site.written env path) =
      if isHostname (siteHost site.host) then
        urlunsplit site.parts.scheme (siteHost (siteHost site.host) ++ site.portPart)
          (Text.rstrip (· == '/') path) (site.query env) []
      else site.written env path := by
  obtain ⟨port, hport, hread⟩ := h.read_written hlower hpath hchars
  unfold writtenSite
  rw [hread]
  split
  · rw [Option.map_some, Option.getD_some, Site.address, hport, query_again rfl]
    rfl
  · rfl

theorem written_tidy (hpath : path = [] ∨ ∃ p, path = '/' :: p) (htidy : Tidy env.unicode path) :
    Tidy env.unicode (site.written env path) := by
  rw [Site.written_eq hpath]
  have hquery : Tidy env.unicode (queryPart (site.query env)) := .of_no_space queryPart_noSpace
  apply (Tidy.of_no_space h.front_noSpace).append
  · apply htidy.append hquery
    intro c _ _ d hd
    exact queryPart_noSpace d (List.mem_of_mem_head? hd)
  · intro c hc hblank
    rw [h.front_noSpace c (List.mem_of_getLast? hc)] at hblank
    cases hblank

/-- There is no blank to strip unless the path ends with one and no query follows. -/
theorem written_cleaned (hpath : path = [] ∨ ∃ p, path = '/' :: p)
    (htidy : Tidy env.unicode path)
    (hlast : site.query env = [] → path.getLast? ≠ some ' ') :
    Cleaned env.unicode (site.written env path) := by
  have hne : site.front ≠ [] := by simp [Site.front]
  refine ⟨h.written_tidy hpath htidy, ⟨fun c hc => ?_, fun c hc => ?_⟩, ?_⟩
  · rw [Site.written_eq hpath, List.head?_append_of_ne_nil _ hne] at hc
    exact h.front_noSpace c (List.mem_of_mem_head? hc)
  · rw [Site.written_eq hpath] at hc
    by_cases hquery : site.query env = []
    · have hnone : queryPart (site.query env) = [] := by simp [queryPart, hquery]
      rw [hnone, List.append_nil] at hc
      by_cases hempty : path = []
      · rw [hempty, List.append_nil] at hc
        exact h.front_noSpace c (List.mem_of_getLast? hc)
      · rw [List.getLast?_append_of_ne_nil _ hempty] at hc
        rw [← Bool.not_eq_true]
        intro hspace
        obtain rfl := htidy.blanks c (List.mem_of_getLast? hc) hspace
        exact hlast hquery hc
    · have hsome : queryPart (site.query env) ≠ [] := by simp [queryPart, hquery]
      rw [List.getLast?_append_of_ne_nil _ (by simp [hsome]),
        List.getLast?_append_of_ne_nil _ hsome] at hc
      exact queryPart_noSpace c (List.mem_of_getLast? hc)
  · rw [Site.written_eq hpath]
    simp [hne]

end Site.Read

end Written

/-- The host has lost all its `www.`, unless what is left is no host name, and a blank at the end
of the path is followed by a parameter that is kept. -/
structure Site.Settled (env : Platform) (site : Site) : Prop where
  www : isHostname (siteHost site.host) = true →
    Text.startsWith wwwPrefix (siteHost site.host) = false
  blank : site.path.getLast? = some ' ' → site.kept env ≠ []

theorem urlunsplit_length {scheme netloc path query : Text}
    (hpath : path = [] ∨ ∃ p, path = '/' :: p) :
    (urlunsplit scheme netloc path query []).length =
      scheme.length + 3 + netloc.length + path.length + (queryPart query).length := by
  rw [urlunsplit_rooted hpath]
  simp only [List.length_append, List.length_cons]
  omega

theorem siteHost_length_le (host : Text) : (siteHost host).length ≤ host.length :=
  (Text.removePrefix_within wwwPrefix host).length_le

theorem cleanText_blank {body : Text} (hbody : Cleaned env.unicode body)
    (htidy : Tidy env.unicode (body ++ [' '])) :
    cleanText env (some (body ++ [' '])) = some body := by
  have hblank : Text.rstrip env.unicode.isSpace [' '] = [] := by
    unfold Text.rstrip
    rw [List.rdropWhile_eq_nil_iff]
    intro c hc
    rw [List.mem_singleton.mp hc]
    exact space_blank _
  have hstrip : strip env (body ++ [' ']) = body := by
    have hbounded := Text.strip_append_bounded hbody.nonempty hbody.bounded [' ']
    rw [hblank, List.append_nil] at hbounded
    exact hbounded
  have hne : body.isEmpty = false := by simpa using hbody.nonempty
  rw [cleanText, Option.bind_some, htidy.collapse (by simp), hstrip, Text.orNone, hne]
  rfl

theorem normalizeUrl_cleaned (h : Cleaned env.unicode text) :
    normalizeUrl env (some text) = some (writtenSite env text) := by
  rw [normalizeUrl_eq, h.cleanText]
  rfl

namespace Site.Read

variable (h : site.Read env text)

include h

/-- With a blank at its end the normal form is shorter the second time. -/
theorem shortened (hlower : env.unicode.LowersFront) (hquery : site.query env = [])
    (hlast : site.path.getLast? = some ' ') :
    ∃ shorter, normalizeUrl env (some (site.written env site.path)) = some shorter ∧
      shorter.length < (site.written env site.path).length := by
  have hrooted := Site.rooted h.read
  have hpath := h.splittable.path
  have htidy := h.path_tidy
  obtain ⟨p, hp⟩ := List.getLast?_eq_some_iff.mp hlast
  rw [hp] at hrooted hpath htidy ⊢
  have hfront : p = [] ∨ ∃ q, p = '/' :: q := by
    rcases hrooted with hnil | ⟨q, hq⟩
    · simp at hnil
    · cases p with
      | nil => exact .inl rfl
      | cons c p => exact .inr ⟨p, by rw [(List.cons.inj hq).1]⟩
  have htidy' : Tidy env.unicode p := htidy.part (List.prefix_append p _).isInfix
  have hend : p.getLast? ≠ some ' ' := by
    intro hblank
    have hsingle := (List.isChain_append.mp htidy.single).2.2 ' ' hblank ' ' rfl (space_blank _)
    rw [space_blank] at hsingle
    cases hsingle
  have hbody : Cleaned env.unicode (site.written env p) :=
    h.written_cleaned hfront htidy' fun _ => hend
  have hsplit : site.written env (p ++ [' ']) = site.written env p ++ [' '] := by
    have hnone : queryPart (site.query env) = [] := by simp [queryPart, hquery]
    rw [Site.written_eq hrooted, Site.written_eq hfront, hnone]
    simp
  have hchars : ∀ c ∈ p, c ≠ '?' ∧ c ≠ '#' ∧ isUnsafeByte c = false :=
    fun c hc => hpath c (List.mem_append_left _ hc)
  have htwice := h.written_tidy hrooted htidy
  rw [hsplit] at htwice ⊢
  refine ⟨writtenSite env (site.written env p), ?_, ?_⟩
  · rw [normalizeUrl_eq, cleanText_blank hbody htwice]
    rfl
  · have hle : (writtenSite env (site.written env p)).length ≤ (site.written env p).length := by
      rw [h.writtenSite_written hlower hfront hchars]
      split
      · have hhost := siteHost_length_le (siteHost site.host)
        have hstrip := (Text.rstrip_within (· == '/') p).length_le
        have hbare : bareHost site.host = site.host := bareHost_of_chars h.host
        rw [Site.written, urlunsplit_length (rstrip_rooted hfront), urlunsplit_length hfront,
          Site.authority, hbare, List.length_append, List.length_append]
        omega
      · exact le_rfl
    rw [List.length_append, List.length_singleton]
    omega

theorem normalizeUrl_address (huc : env.unicode.LowersText) (hlower : env.unicode.LowersFront) :
    normalizeUrl env (some (site.address env)) = some (site.address env) ↔ site.Settled env := by
  have hrooted := Site.rooted h.read
  rw [address_eq huc h.read]
  by_cases hblank : site.query env = [] ∧ site.path.getLast? = some ' '
  · obtain ⟨hquery, hlast⟩ := hblank
    obtain ⟨shorter, hshorter, hlt⟩ := h.shortened hlower hquery hlast
    rw [hshorter]
    refine iff_of_false (fun hsame => ?_) fun hsettled => ?_
    · rw [Option.some.inj hsame] at hlt
      exact absurd hlt (lt_irrefl _)
    · exact hsettled.blank hlast (query_eq_nil.mp hquery)
  · have hkept : site.path.getLast? = some ' ' → site.kept env ≠ [] :=
      fun hlast hempty => hblank ⟨query_eq_nil.mpr hempty, hlast⟩
    have hclean := h.written_cleaned hrooted h.path_tidy
      fun hquery hlast => hblank ⟨hquery, hlast⟩
    rw [normalizeUrl_cleaned hclean, h.writtenSite_written hlower hrooted h.splittable.path]
    split
    · rename_i hname
      have hstrip : Text.rstrip (· == '/') site.path = site.path := rstrip_rstrip _ _
      have hbare : bareHost site.host = site.host := bareHost_of_chars h.host
      have hsame : siteHost (siteHost site.host) = siteHost site.host ↔
          Text.startsWith wwwPrefix (siteHost site.host) = false :=
        Text.removePrefix_eq_self (by decide)
      rw [hstrip, Option.some_inj]
      constructor
      · intro heq
        refine ⟨fun _ => hsame.mp ?_, hkept⟩
        have hlength := congrArg List.length heq
        rw [Site.written, urlunsplit_length hrooted, urlunsplit_length hrooted, Site.authority,
          hbare, List.length_append, List.length_append] at hlength
        exact (Text.removePrefix_within wwwPrefix _).eq_of_length (by
          change (siteHost (siteHost site.host)).length = _
          omega)
      · intro hsettled
        rw [hsame.mpr (hsettled.www hname), Site.written, Site.authority, hbare]
    · rename_i hname
      refine iff_of_true rfl ⟨fun hyes => absurd hyes hname, hkept⟩

end Site.Read

/-- Normalising once is enough exactly for texts that are no site, and for sites whose host loses
all of its `www.` at once and whose address does not come to end in a blank. -/
theorem normalizeUrl_idempotent_iff (huc : env.unicode.LowersText)
    (hlower : env.unicode.LowersFront) (value : Option Text) :
    normalizeUrl env (normalizeUrl env value) = normalizeUrl env value ↔
      ∀ text site, cleanText env value = some text → readSite env text = some site →
        site.Settled env := by
  cases htext : cleanText env value with
  | none =>
      have hnone : normalizeUrl env value = none := by rw [normalizeUrl_eq, htext, Option.map_none]
      rw [hnone]
      refine iff_of_true rfl ?_
      rintro text site ⟨⟩
  | some text =>
      have honce : normalizeUrl env value = some (writtenSite env text) := by
        rw [normalizeUrl_eq, htext, Option.map_some]
      rw [honce]
      cases hread : readSite env text with
      | none =>
          have hkept := writtenSite_none hread
          rw [hkept, normalizeUrl_cleaned (cleanText_cleaned htext), hkept]
          refine iff_of_true rfl ?_
          rintro _ site ⟨⟩ hsite
          rw [hread] at hsite
          cases hsite
      | some site =>
          have hsite := Site.Read.of_cleaned huc hlower htext hread
          rw [writtenSite_some hread, hsite.normalizeUrl_address huc hlower]
          constructor
          · rintro hsettled _ _ ⟨⟩ hagain
            obtain rfl := Option.some.inj (hread.symm.trans hagain)
            exact hsettled
          · intro hall
            exact hall text site rfl hread

theorem normalizeUrl_idempotent_iff_acme :
    normalizeUrl .ascii (normalizeUrl .ascii (some "www.acme.fi/About/?b=2&a=1#x".toList)) =
        normalizeUrl .ascii (some "www.acme.fi/About/?b=2&a=1#x".toList) ↔
      ∀ text site, cleanText .ascii (some "www.acme.fi/About/?b=2&a=1#x".toList) = some text →
        readSite .ascii text = some site → site.Settled .ascii :=
  normalizeUrl_idempotent_iff Unicode.ascii_lowersText Unicode.ascii_lowersFront _

/-- `www.` is taken off once each time. -/
theorem normalizeUrl_not_idempotent :
    ¬∀ env : Platform, env.unicode.LowersText → env.unicode.LowersFront → ∀ s : Text,
      normalizeUrl env (normalizeUrl env (some s)) = normalizeUrl env (some s) := by
  intro h
  have hsame := h .ascii Unicode.ascii_lowersText Unicode.ascii_lowersFront
    "www.www.acme.fi".toList
  exact absurd hsame (by decide +kernel)

/-- So is a blank that the fragment stood behind. -/
example : normalizeUrl .ascii (some "acme.fi/x #team".toList) = some "https://acme.fi/x ".toList ∧
    normalizeUrl .ascii (some "https://acme.fi/x ".toList) = some "https://acme.fi/x".toList := by
  decide +kernel

end LeadPipe
