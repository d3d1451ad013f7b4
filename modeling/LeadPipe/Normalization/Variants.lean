import LeadPipe.Normalization.Emails
import LeadPipe.Normalization.Hosts

/-!
# Spellings of a website

A website is written with or without its scheme, its `www.`, its default port and in any case.
The domain read off the normal form is the same, but a text is taken to name a scheme wherever
`://` stands in it.
-/

namespace LeadPipe

open Urllib

namespace SameLetters

variable {s a b : Text}

theorem append (h : SameLetters s (a ++ b)) :
    ∃ s₁ s₂, s = s₁ ++ s₂ ∧ SameLetters s₁ a ∧ SameLetters s₂ b := by
  unfold SameLetters at h
  rw [List.map_append] at h
  exact List.map_eq_append_iff.mp h

theorem eq_of_no_letters (h : SameLetters s a) (ha : ∀ c ∈ a, c.isAlpha = false) : s = a := by
  have hkept {c : Char} (hc : c.isAlpha = false) : c.toLower = c := by
    apply Text.toLower_of_not_upper
    intro hupper
    rw [Text.isAlpha_iff.mpr (.inl hupper)] at hc
    cases hc
  have hlower : a.map Char.toLower = a :=
    (List.map_congr_left fun c hc => hkept (ha c hc)).trans (List.map_id a)
  have hsame : s.map Char.toLower = s := by
    refine (List.map_congr_left fun c hc => hkept ?_).trans (List.map_id s)
    have hmem : c.toLower ∈ a := by
      rw [← hlower, ← h]
      exact List.mem_map_of_mem hc
    rw [← Text.isAlpha_toLower]
    exact ha _ hmem
  rw [← hsame, h, hlower]

theorem lower_mem (h : SameLetters s a) {c : Char} (hc : c ∈ s) :
    ∃ d ∈ a, c.toLower = d.toLower := by
  have hmem : c.toLower ∈ a.map Char.toLower := by
    rw [← h]
    exact List.mem_map_of_mem hc
  obtain ⟨d, hd, hdc⟩ := List.mem_map.mp hmem
  exact ⟨d, hd, hdc.symm⟩

theorem plainHost (h : SameLetters s a) (ha : ∀ c ∈ a, isSiteChar c = true) :
    ∀ c ∈ s, isPlainHostChar c = true := by
  intro c hc
  obtain ⟨d, hd, hcd⟩ := h.lower_mem hc
  have hplain : isPlainHostChar c.toLower = true := by
    rw [hcd, siteChar_toLower (ha d hd)]
    exact siteChar_plain (ha d hd)
  by_cases hupper : c.isUpper = true
  · have halpha : c.isAlpha = true := Text.isAlpha_iff.mpr (.inl hupper)
    have hcolon : c ≠ ':' := by
      rintro rfl
      cases halpha
    simp [isPlainHostChar, isAuthorityChar, Text.isAlphanum_iff.mpr (.inl halpha), hcolon]
  · rwa [Text.toLower_of_not_upper hupper] at hplain

theorem host_lower (h : SameLetters s a) (ha : ∀ c ∈ a, isSiteChar c = true) :
    s.map Char.toLower = a :=
  h.trans ((List.map_congr_left fun c hc => siteChar_toLower (ha c hc)).trans (List.map_id a))

end SameLetters

inductive Variant where
  | bare
  | www
  | http
  | https
  | httpsWww
  | httpPort
  | httpsPort
  deriving DecidableEq, Repr

namespace Variant

def scheme : Variant → Option Text
  | bare | www => none
  | http | httpPort => some "http".toList
  | https | httpsWww | httpsPort => some "https".toList

def host (h : Text) : Variant → Text
  | www | httpsWww => wwwPrefix ++ h
  | bare | http | https | httpPort | httpsPort => h

def port : Variant → Text
  | httpPort => ":80".toList
  | httpsPort => ":443".toList
  | bare | www | http | https | httpsWww => []

def front (variant : Variant) (h : Text) : Text :=
  match variant.scheme with
  | some scheme => scheme ++ ("://".toList ++ (variant.host h ++ variant.port))
  | none => variant.host h ++ variant.port

example : httpsWww.front "acme.fi".toList = "https://www.acme.fi".toList := by decide

example : httpPort.front "acme.fi".toList = "http://acme.fi:80".toList := by decide

end Variant

/-- A host name without its `www.`, and a path, a query and a fragment after it. -/
structure SiteText (env : Platform) (h t : Text) : Prop where
  name : isHostname h = true
  noWww : Text.startsWith wwwPrefix h = false
  noSpace : ∀ c ∈ t, env.unicode.isSpace c = false
  tail : ∀ c, t.head? = some c → isDelimiter c = true

section Reading

variable {env : Platform} {variant : Variant} {h t front : Text}

theorem hasScheme_append (hfront : ':' ∉ front) : hasScheme (front ++ t) = hasScheme t := by
  induction front with
  | nil => rfl
  | cons c front ih =>
      have hc : c ≠ ':' := fun heq => hfront (heq ▸ List.mem_cons_self)
      have hstart : Text.startsWith "://".toList (c :: (front ++ t)) = false := by
        have hne : (':' == c) = false := beq_eq_false_iff_ne.mpr hc.symm
        simp [Text.startsWith, List.isPrefixOf, hne]
      rw [← ih fun hmem => hfront (List.mem_cons_of_mem _ hmem)]
      unfold hasScheme Text.containsSub
      rw [List.cons_append, List.tails_cons, List.any_cons, hstart, Bool.false_or]

theorem bareHostname_www (hh : isBareHostname h = true) :
    isBareHostname (wwwPrefix ++ h) = true := by
  obtain ⟨hcount, hlabels⟩ := Bool.and_eq_true_iff.mp hh
  have hwww : wwwPrefix ++ h = "www".toList ++ '.' :: h := rfl
  have hlabel : isHostLabel "www".toList = true := by decide
  rw [isBareHostname, hwww, List.splitOn_append_cons_self_of_not_mem (by decide), List.all_cons,
    hlabel, hlabels]
  have hmore : 2 ≤ ("www".toList :: h.splitOn '.').length :=
    (of_decide_eq_true hcount).trans (Nat.le_succ _)
  rw [decide_eq_true hmore]
  rfl

theorem startsWith_link (link : Text) {lowered : Text} (hlowered : h <+: lowered)
    (hchars : ∀ c ∈ h, isSiteChar c = true) (hdot : '.' ∈ h) (hcolon : ':' ∈ link)
    (hlink : '.' ∉ link) : Text.startsWith link lowered = false := by
  rw [← Bool.not_eq_true]
  intro hstart
  rcases List.prefix_or_prefix_of_prefix (List.isPrefixOf_iff_prefix.mp hstart) hlowered with
    hpre | hpre
  · exact absurd (hchars _ (hpre.subset hcolon)) (by decide)
  · exact hlink (hpre.subset hdot)

theorem Variant.host_cases (variant : Variant) (h : Text) :
    variant.host h = h ∨ variant.host h = wwwPrefix ++ h := by
  cases variant <;> first | exact .inl rfl | exact .inr rfl

theorem Variant.host_chars (variant : Variant) (hchars : ∀ c ∈ h, isSiteChar c = true) :
    ∀ c ∈ variant.host h, isSiteChar c = true := by
  intro c hc
  have hwww : ∀ c ∈ wwwPrefix, isSiteChar c = true := Text.forall_of_all (by decide)
  rcases variant.host_cases h with heq | heq
  · exact hchars c (heq ▸ hc)
  · rw [heq, List.mem_append] at hc
    exact hc.elim (hwww c) (hchars c)

theorem Variant.scheme_web (variant : Variant) {scheme : Text} (h : variant.scheme = some scheme) :
    scheme = "http".toList ∨ scheme = "https".toList := by
  cases variant with
  | bare | www => cases h
  | http | httpPort => exact .inl (Option.some.inj h).symm
  | https | httpsWww | httpsPort => exact .inr (Option.some.inj h).symm

theorem Variant.port_cases (variant : Variant) :
    variant.port = [] ∨ ∃ digits, variant.port = ':' :: digits ∧ isPort digits = true := by
  cases variant with
  | httpPort => exact .inr ⟨"80".toList, rfl, by decide⟩
  | httpsPort => exact .inr ⟨"443".toList, rfl, by decide⟩
  | bare | www | http | https | httpsWww => exact .inl rfl

theorem Variant.port_plain (variant : Variant) :
    ∀ c ∈ variant.port, isAuthorityChar c = true ∧ c.isAlpha = false := by
  cases variant <;> exact Text.forall_of_all (by decide)

theorem front_noSpace (hchars : ∀ c ∈ h, isSiteChar c = true)
    (hfront : SameLetters front (variant.front h)) (uc : Unicode) :
    ∀ c ∈ front, uc.isSpace c = false := by
  have hhost : ∀ c ∈ variant.host h ++ variant.port, isAuthorityChar c = true := by
    intro c hc
    rcases List.mem_append.mp hc with hc | hc
    · exact (Bool.and_eq_true_iff.mp (siteChar_plain (variant.host_chars hchars c hc))).1
    · exact (variant.port_plain c hc).1
  have hscheme : ∀ scheme, variant.scheme = some scheme →
      ∀ c ∈ scheme ++ "://".toList, c.toNat < 128 ∧ Text.asciiSpace c = false := by
    intro scheme heq
    rcases variant.scheme_web heq with rfl | rfl
    all_goals exact Text.forall_of_all (by decide)
  have hplain : ∀ d ∈ variant.front h, d.toNat < 128 ∧ uc.isSpace d = false := by
    intro d hd
    have hauthority (hd : d ∈ variant.host h ++ variant.port) :
        d.toNat < 128 ∧ uc.isSpace d = false :=
      ⟨authorityChar_ascii (hhost d hd), authorityText_space hhost uc d hd⟩
    unfold Variant.front at hd
    split at hd
    · rename_i scheme heq
      rw [← List.append_assoc] at hd
      rcases List.mem_append.mp hd with hd | hd
      · obtain ⟨hascii, hspace⟩ := hscheme scheme heq d hd
        exact ⟨hascii, by rw [uc.isSpace_ascii d hascii, hspace]⟩
      · exact hauthority hd
    · exact hauthority hd
  intro c hc
  obtain ⟨d, hd, hcd⟩ := hfront.lower_mem hc
  obtain ⟨hascii, hspace⟩ := hplain d hd
  have hc' : c.toNat < 128 := by
    rw [← Text.toLower_ascii_iff, hcd, Text.toLower_ascii_iff]
    exact hascii
  rw [← isSpace_toLower uc hc', hcd, isSpace_toLower uc hascii, hspace]

theorem Variant.front_named {scheme : Text} (h : variant.scheme = some scheme) (host : Text) :
    variant.front host = scheme ++ ("://".toList ++ (variant.host host ++ variant.port)) := by
  unfold front
  rw [h]

theorem Variant.front_bare (hscheme : variant.scheme = none) (host : Text) :
    variant.front host = variant.host host ∧ variant.port = [] := by
  have hport : variant.port = [] := by
    cases variant with
    | bare | www => rfl
    | http | https | httpsWww | httpPort | httpsPort => cases hscheme
  unfold front
  rw [hscheme, hport]
  exact ⟨List.append_nil _, rfl⟩

theorem siteText_ascii (hchars : ∀ c ∈ h, isSiteChar c = true) : h.isAscii = true :=
  Text.isAscii_iff.mpr fun c hc =>
    authorityChar_ascii (Bool.and_eq_true_iff.mp (siteChar_plain (hchars c hc))).1

theorem read_bare (hlower : env.unicode.LowersFront) (hchars : ∀ c ∈ h, isSiteChar c = true)
    (hdot : '.' ∈ h) (hfront : SameLetters front h) (ht : hasScheme t = false) :
    webAddress env (front ++ t) = some (withScheme (front ++ t)) ∧
      withScheme (front ++ t) = "https".toList ++ ':' :: '/' :: '/' :: (front ++ t) := by
  have hcolon : ':' ∉ front := fun hmem => absurd (hfront.plainHost hchars _ hmem) (by decide)
  have hscheme : hasScheme (front ++ t) = false := by rw [hasScheme_append hcolon, ht]
  have hpre : h <+: env.unicode.lower (front ++ t) := by
    rw [← hfront.host_lower hchars]
    exact hlower front t (SameLetters.isAscii (Eq.symm hfront) (siteText_ascii hchars))
  have hmail := startsWith_link "mailto:".toList hpre hchars hdot (by decide) (by decide)
  have htel := startsWith_link "tel:".toList hpre hchars hdot (by decide) (by decide)
  constructor
  · rw [webAddress, otherScheme, contactLink, hscheme, hmail, htel, Bool.or_self, Bool.and_false]
    rfl
  · rw [withScheme, hscheme]
    rfl

theorem read_named (hlower : env.unicode.LowersFront) {scheme written : Text}
    (hweb : scheme = "http".toList ∨ scheme = "https".toList)
    (hwritten : SameLetters written scheme) (rest : Text) :
    webAddress env (written ++ ("://".toList ++ rest)) =
        some (withScheme (written ++ ("://".toList ++ rest))) ∧
      withScheme (written ++ ("://".toList ++ rest)) =
        written ++ ':' :: '/' :: '/' :: rest := by
  have hscheme : hasScheme (written ++ ("://".toList ++ rest)) = true :=
    Text.containsSub_append written "://".toList rest
  have hascii : Text.isAscii (written ++ "://".toList) = true := by
    have hascii : scheme.isAscii = true := by
      rcases hweb with rfl | rfl
      all_goals decide
    have hwritten := SameLetters.isAscii (Eq.symm hwritten) hascii
    simpa [Text.isAscii] using hwritten
  have hpre := hlower (written ++ "://".toList) rest hascii
  have hlowered : (written ++ "://".toList).map Char.toLower =
      scheme.map Char.toLower ++ "://".toList := by
    rw [List.map_append, hwritten]
    rfl
  rw [hlowered, List.append_assoc] at hpre
  have hstart : (Text.startsWith "http://".toList
        (env.unicode.lower (written ++ ("://".toList ++ rest))) ||
      Text.startsWith "https://".toList
        (env.unicode.lower (written ++ ("://".toList ++ rest)))) = true := by
    rw [Bool.or_eq_true]
    rcases hweb with rfl | rfl
    · exact .inl (List.isPrefixOf_iff_prefix.mpr hpre)
    · exact .inr (List.isPrefixOf_iff_prefix.mpr hpre)
  constructor
  · rw [webAddress, otherScheme, contactLink, hscheme, hstart]
    rfl
  · rw [withScheme, if_pos hscheme]
    rfl

theorem readSite_variant (hlower : env.unicode.LowersFront) (site : SiteText env h t)
    (hchars : ∀ c ∈ h, isSiteChar c = true) (hfront : SameLetters front (variant.front h))
    (hscheme : variant.scheme = none → hasScheme t = false) :
    ∃ found, readSite env (front ++ t) = some found ∧ IsScheme found.parts.scheme ∧
      found.host = variant.host h := by
  have hhost := variant.host_chars hchars
  have hname : isHostname (variant.host h) = true := by
    have hbare := site.name
    rw [isHostname_of_chars hchars] at hbare
    rw [isHostname_of_chars hhost]
    rcases variant.host_cases h with heq | heq
    · rwa [heq]
    · rw [heq]
      exact bareHostname_www hbare
  have hsafe : ∀ c ∈ t, isUnsafeByte c = false := by
    intro c hc
    rw [← Bool.not_eq_true]
    intro hunsafe
    have hspace := site.noSpace c hc
    rw [unsafe_space hunsafe] at hspace
    cases hspace
  cases hvariant : variant.scheme with
  | none =>
      obtain ⟨heq, -⟩ := Variant.front_bare hvariant h
      rw [heq] at hfront
      obtain ⟨hweb, haddress⟩ := read_bare hlower hhost (hostname_dot hname) hfront
        (hscheme hvariant)
      have hnoPort : withScheme (front ++ t) =
          "https".toList ++ ':' :: '/' :: '/' :: ((front ++ []) ++ t) := by
        rw [haddress, List.append_nil]
      have hhttps : IsScheme ("https".toList.map Char.toLower) := IsScheme.https
      obtain ⟨found, hread, hparts, hfound⟩ := readSite_spelled hweb hnoPort hhttps
        (hfront.plainHost hhost) (by rwa [hfront.host_lower hhost]) (.inl rfl) site.tail hsafe
      refine ⟨found, hread, ?_, ?_⟩
      · rw [hparts]
        exact IsScheme.https
      · rw [hfound, hfront.host_lower hhost]
  | some scheme =>
      have hweb := variant.scheme_web hvariant
      rw [Variant.front_named hvariant] at hfront
      obtain ⟨written, rest, rfl, hwritten, hrest⟩ := hfront.append
      obtain ⟨slashes, authority, rfl, hslashes, hauthority⟩ := hrest.append
      obtain ⟨host, port, rfl, hhost', hport⟩ := hauthority.append
      obtain rfl := hslashes.eq_of_no_letters (Text.forall_of_all (by decide))
      obtain rfl := hport.eq_of_no_letters fun c hc => (variant.port_plain c hc).2
      have hscheme' : written.map Char.toLower = scheme := by
        rw [hwritten]
        rcases hweb with rfl | rfl
        all_goals decide
      have hlowered : IsScheme (written.map Char.toLower) := by
        rw [hscheme']
        rcases hweb with rfl | rfl
        · exact .http
        · exact .https
      obtain ⟨hread, haddress⟩ := read_named hlower hweb hwritten ((host ++ variant.port) ++ t)
      have htext : written ++ ("://".toList ++ (host ++ variant.port)) ++ t =
          written ++ ("://".toList ++ ((host ++ variant.port) ++ t)) := by
        simp only [List.append_assoc]
      rw [htext]
      obtain ⟨found, hread, hparts, hfound⟩ := readSite_spelled hread haddress hlowered
        (hhost'.plainHost hhost) (by rwa [hhost'.host_lower hhost]) variant.port_cases site.tail
        hsafe
      refine ⟨found, hread, ?_, ?_⟩
      · rw [hparts]
        exact hlowered
      · rw [hfound, hhost'.host_lower hhost]

theorem extractDomain_bare {text : Text}
    (h : (authority (splitScheme (stripped text)).2).1 = []) :
    extractDomain env (some text) = none := by
  rw [extractDomain, Option.bind_some, urlsplit_bare h]
  rfl

theorem schemeChar_inside {c : Char} (h : isSchemeChar c = true) : isDelimiter c = false := by
  have hne {d : Char} (hd : isSchemeChar d = false) : c ≠ d := by
    rintro rfl
    rw [hd] at h
    cases h
  simp [isDelimiter, hne (show isSchemeChar '/' = false by decide),
    hne (show isSchemeChar '?' = false by decide), hne (show isSchemeChar '#' = false by decide)]

theorem no_domain (hlower : env.unicode.LowersFront) (hchars : ∀ c ∈ h, isSiteChar c = true)
    (hdot : '.' ∈ h) (hfront : SameLetters front h) (ht : hasScheme t = true)
    (htail : ∀ c, t.head? = some c → isDelimiter c = true)
    (hclean : ∀ c ∈ front ++ t, isUnsafeByte c = false) :
    extractDomain env (some (writtenSite env (front ++ t))) = none := by
  have hplain := hfront.plainHost hchars
  have hcolon : ':' ∉ front := fun hmem => absurd (hplain _ hmem) (by decide)
  have hpre : h <+: env.unicode.lower (front ++ t) := by
    rw [← hfront.host_lower hchars]
    exact hlower front t (SameLetters.isAscii (Eq.symm hfront) (siteText_ascii hchars))
  have hother : otherScheme env (front ++ t) = true := by
    rw [otherScheme, hasScheme_append hcolon, ht,
      startsWith_link "http://".toList hpre hchars hdot (by decide) (by decide),
      startsWith_link "https://".toList hpre hchars hdot (by decide) (by decide)]
    rfl
  have hread : readSite env (front ++ t) = none := by
    rw [readSite, webAddress, hother]
    rfl
  obtain ⟨c, cs, rfl⟩ : ∃ c cs, front = c :: cs := by
    cases front with
    | nil =>
        have hempty : h = [] := by simpa [SameLetters] using hfront.symm
        rw [hempty] at hdot
        cases hdot
    | cons c cs => exact ⟨c, cs, rfl⟩
  have hfirst := hplain c List.mem_cons_self
  have hstripped : stripped (c :: cs ++ t) = c :: cs ++ t := by
    have hvisible := authorityChar_visible (Bool.and_eq_true_iff.mp hfirst).1
    have hcontrol : isC0OrSpace c = false := decide_eq_false (by omega)
    rw [stripped_clean hclean, List.cons_append, List.dropWhile_cons_of_neg (by simp [hcontrol])]
  have hslash : c ≠ '/' := by
    rintro rfl
    exact absurd hfirst (by decide)
  rw [writtenSite_none hread]
  apply extractDomain_bare
  rw [hstripped]
  by_contra hnetloc
  rcases splitScheme_cases (c :: cs ++ t) with hsplit | ⟨scheme, rest, heq, hscheme, hsplit⟩
  · rw [hsplit] at hnetloc
    obtain ⟨after, hafter⟩ := authority_starts hnetloc
    exact hslash (List.cons.inj hafter).1
  · -- the first colon stands behind a delimiter, and no scheme has one
    obtain ⟨-, hschemeChars⟩ := hscheme.written
    rcases List.append_eq_append_iff.mp heq with ⟨inner, hinner, hrest⟩ | ⟨inner, hinner, hrest⟩
    · cases inner with
      | nil => exact absurd (htail ':' (by rw [hrest]; rfl)) (by decide)
      | cons d inner =>
          have hd : isSchemeChar d = true := List.all_eq_true.mp hschemeChars d (by simp [hinner])
          have hdelimiter := htail d (by rw [hrest]; rfl)
          rw [schemeChar_inside hd] at hdelimiter
          cases hdelimiter
    · cases inner with
      | nil => exact absurd (htail ':' (by rw [← List.nil_append t, ← hrest]; rfl)) (by decide)
      | cons d inner =>
          obtain ⟨rfl, -⟩ := List.cons.inj hrest
          exact hcolon (by simp [hinner])

theorem normalizeUrl_word {text : Text} (h : ∀ c ∈ text, env.unicode.isSpace c = false)
    (hne : text ≠ []) : normalizeUrl env (some text) = some (writtenSite env text) := by
  rw [normalizeUrl_eq, (Cleaned.of_word h hne).cleanText]
  rfl

theorem SiteText.chars (site : SiteText env h t) (hfeed : '\n' ∉ h) :
    ∀ c ∈ h, isSiteChar c = true := by
  intro c hc
  rcases hostname_char site.name hc with hchar | rfl
  · exact hchar
  · exact absurd hc hfeed

/-- Every spelling of a website has its domain, unless the text names no scheme and shows one in
its path, query or fragment; and a line feed that `HOSTNAME` passes over is lost. -/
theorem variants_converge_iff (huc : env.unicode.LowersText) (hlower : env.unicode.LowersFront)
    (site : SiteText env h t) (variant : Variant)
    (hfront : SameLetters front (variant.front h)) :
    extractDomain env (normalizeUrl env (some (front ++ t))) = some h ↔
      '\n' ∉ h ∧ (variant.scheme = none → hasScheme t = false) := by
  by_cases hfeed : '\n' ∈ h
  · refine iff_of_false (fun hdomain => ?_) fun hgood => hgood.1 hfeed
    exact absurd ((extractDomain_host huc hdomain).safe _ hfeed) (by decide)
  have hchars := site.chars hfeed
  have hhost := variant.host_chars hchars
  have hdot : '.' ∈ variant.host h := by
    have hmem := hostname_dot site.name
    rcases variant.host_cases h with heq | heq
    · rwa [heq]
    · rw [heq]
      exact List.mem_append_right _ hmem
  have hspace : ∀ c ∈ front ++ t, env.unicode.isSpace c = false := by
    intro c hc
    exact (List.mem_append.mp hc).elim (front_noSpace hchars hfront env.unicode c)
      (site.noSpace c)
  have hne : front ++ t ≠ [] := by
    intro hempty
    have hnil := (List.append_eq_nil_iff.mp hempty).1
    have hmem : '.' ∈ variant.front h := by
      unfold Variant.front
      split <;> simp [hdot]
    rw [hnil] at hfront
    have hempty : variant.front h = [] := by simpa [SameLetters] using hfront.symm
    rw [hempty] at hmem
    cases hmem
  rw [normalizeUrl_word hspace hne]
  by_cases hshown : variant.scheme = none ∧ hasScheme t = true
  · obtain ⟨hscheme, ht⟩ := hshown
    rw [(Variant.front_bare hscheme h).1] at hfront
    have hclean : ∀ c ∈ front ++ t, isUnsafeByte c = false := by
      intro c hc
      rw [← Bool.not_eq_true]
      intro hunsafe
      have hc := hspace c hc
      rw [unsafe_space hunsafe] at hc
      cases hc
    rw [no_domain hlower hhost hdot hfront ht site.tail hclean]
    refine iff_of_false (by simp) fun hgood => ?_
    rw [hgood.2 hscheme] at ht
    cases ht
  · have hscheme : variant.scheme = none → hasScheme t = false :=
      fun hnone => (Bool.not_eq_true _).mp fun ht => hshown ⟨hnone, ht⟩
    obtain ⟨found, hread, hparts, hfound⟩ := readSite_variant hlower site hchars hfront hscheme
    refine iff_of_true ?_ ⟨hfeed, hscheme⟩
    rw [extractDomain_site hread hparts, hfound, bareHost_of_chars hhost]
    have hsame : siteHost h = h :=
      (Text.removePrefix_eq_self (by decide)).mpr site.noWww
    rcases variant.host_cases h with heq | heq
    · rw [heq, hsame, hsame]
    · have hwww : siteHost (wwwPrefix ++ h) = h := by
        have hstart : Text.startsWith wwwPrefix (wwwPrefix ++ h) = true :=
          List.isPrefixOf_iff_prefix.mpr (List.prefix_append _ _)
        rw [siteHost, Text.removePrefix, if_pos hstart, List.drop_left]
      rw [heq, hwww, hsame]

end Reading

theorem siteText_acme : SiteText .ascii "acme.fi".toList "/go?u=http://x.fi".toList where
  name := by decide
  noWww := by decide
  noSpace := Text.forall_of_all (by decide)
  tail c hc := by
    obtain rfl : '/' = c := Option.some.inj hc
    rfl

theorem variants_converge_iff_capitals :
    extractDomain .ascii (normalizeUrl .ascii (some ("HTTPS://www.Acme.FI".toList ++
        "/go?u=http://x.fi".toList))) = some "acme.fi".toList ↔
      '\n' ∉ "acme.fi".toList ∧
        (Variant.httpsWww.scheme = none → hasScheme "/go?u=http://x.fi".toList = false) :=
  variants_converge_iff Unicode.ascii_lowersText Unicode.ascii_lowersFront siteText_acme .httpsWww
    (by unfold SameLetters; decide)

/-- The host alone, with an address in its query, is not recognised as a website. -/
theorem variants_diverge :
    ¬∀ env : Platform, env.unicode.LowersText → env.unicode.LowersFront →
      ∀ (h t front : Text) (variant : Variant), SiteText env h t →
        SameLetters front (variant.front h) →
        extractDomain env (normalizeUrl env (some (front ++ t))) = some h := by
  intro hall
  have hdomain := hall .ascii Unicode.ascii_lowersText Unicode.ascii_lowersFront
    "acme.fi".toList "/go?u=http://x.fi".toList "acme.fi".toList .bare siteText_acme rfl
  exact absurd hdomain (by decide +kernel)

end LeadPipe
