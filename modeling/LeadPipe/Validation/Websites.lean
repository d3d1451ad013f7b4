import LeadPipe.Normalization.Sites
import LeadPipe.Validation.Lead

/-!
# How a website is graded after normalisation

The normaliser, `extract_domain` and the validator read the same text, each in its own way.
Where a domain comes out, the grade is read off the text as it was given.
-/

namespace LeadPipe

open Urllib

variable (env : Platform)

/-- A text that names its scheme stays as it is when the scheme is not where it should be, or when
its port is not a number. -/
def keptAsWritten (text : Text) (parsed : SplitResult) : Bool :=
  hasScheme text && (otherScheme env text || parsed.port.isNone)

/-- The text shows a web host, and still does when the normaliser takes `www.` off it. -/
def showsSite (text : Text) : Bool :=
  (urlsplit env.unicode env.isIPv6 (withScheme text)).any fun parsed =>
    isWebScheme parsed.scheme && (parsed.hostname env.unicode).any fun host =>
      isHostname host && (isHostname (siteHost host) || keptAsWritten env text parsed)

variable {env} {text : Text}

theorem validateUrlField_eq {url : Text} {parsed : SplitResult}
    (hsplit : urlsplit env.unicode env.isIPv6 url = some parsed) :
    validateUrlField env (some url) =
      .ok (if !isWebScheme parsed.scheme then .invalid "scheme"
        else if (parsed.hostname env.unicode).any isHostname then .valid
        else .invalid "syntax") := by
  cases hhost : parsed.hostname env.unicode with
  | none =>
      have hform : validateUrlField env (some url) =
          if !isWebScheme parsed.scheme then .ok (.invalid "scheme") else .ok (.invalid "syntax") := by
        simp only [validateUrlField, hsplit, hhost]
        rfl
      rw [hform]
      cases isWebScheme parsed.scheme <;> rfl
  | some host =>
      have hform : validateUrlField env (some url) =
          if !isWebScheme parsed.scheme then .ok (.invalid "scheme")
          else .ok (if isHostname host then .valid else .invalid "syntax") := by
        simp only [validateUrlField, hsplit, hhost]
        rfl
      rw [hform]
      cases isWebScheme parsed.scheme <;> rfl

theorem validateUrlField_valid {url : Text} {parsed : SplitResult} {host : Text}
    (hsplit : urlsplit env.unicode env.isIPv6 url = some parsed)
    (hhost : parsed.hostname env.unicode = some host) :
    validateUrlField env (some url) = .ok .valid ↔
      isWebScheme parsed.scheme = true ∧ isHostname host = true := by
  rw [validateUrlField_eq hsplit, hhost, Option.any_some]
  cases isWebScheme parsed.scheme with
  | false => simp [FieldValidation.valid, FieldValidation.invalid]
  | true => cases isHostname host <;> simp [FieldValidation.valid, FieldValidation.invalid]

theorem extractDomain_some {url domain : Text} (h : extractDomain env (some url) = some domain) :
    ∃ parsed host, urlsplit env.unicode env.isIPv6 url = some parsed ∧
      parsed.hostname env.unicode = some host := by
  rw [extractDomain, Option.bind_some] at h
  obtain ⟨parsed, hparsed, h⟩ := Option.bind_eq_some_iff.mp h
  obtain ⟨host, hhost, -⟩ := Option.map_eq_some_iff.mp h
  exact ⟨parsed, host, hparsed, hhost⟩

/-- Without `://` in the text an authority can only stand at its start. -/
theorem schemeless_authority (hclean : ∀ c ∈ text, isUnsafeByte c = false)
    (hscheme : hasScheme text = false)
    (hnetloc : (authority (splitScheme (stripped text)).2).1 ≠ []) :
    (splitScheme (stripped text)).1 = [] ∧
      ∃ controls after, text = controls ++ '/' :: '/' :: after ∧
        ∀ c ∈ controls, isC0OrSpace c = true := by
  rw [stripped_clean hclean] at hnetloc ⊢
  have hwhole : text.takeWhile isC0OrSpace ++ text.dropWhile isC0OrSpace = text :=
    List.takeWhile_append_dropWhile
  rcases splitScheme_cases (text.dropWhile isC0OrSpace) with hsplit | ⟨scheme, rest, hrest, -, hsplit⟩
  · rw [hsplit] at hnetloc ⊢
    obtain ⟨after, hafter⟩ := authority_starts hnetloc
    refine ⟨rfl, text.takeWhile isC0OrSpace, after, ?_, fun c hc => List.mem_takeWhile_imp hc⟩
    rw [← hafter, hwhole]
  · rw [hsplit] at hnetloc
    obtain ⟨after, rfl⟩ := authority_starts hnetloc
    have hfound : hasScheme text = true := by
      have hcontains := Text.containsSub_append (text.takeWhile isC0OrSpace ++ scheme)
        "://".toList after
      have heq : text.takeWhile isC0OrSpace ++ scheme ++ ("://".toList ++ after) = text := by
        rw [hrest] at hwhole
        conv_rhs => rw [← hwhole]
        simp
      rwa [heq] at hcontains
    rw [hscheme] at hfound
    cases hfound

theorem control_below {c d : Char} (h : isC0OrSpace c = true) (hd : 32 < d.toNat) : c ≠ d := by
  rintro rfl
  have hle : c.toNat ≤ 32 := of_decide_eq_true h
  omega

theorem hostname_controls {parsed : SplitResult} {host : Text}
    (hnetloc : ∀ c ∈ parsed.netloc, isC0OrSpace c = true)
    (hhost : parsed.hostname env.unicode = some host) : isHostname host = false := by
  have hno {d : Char} (hd : 32 < d.toNat) : d ∉ parsed.netloc :=
    fun hmem => control_below (hnetloc d hmem) hd rfl
  have hinfo : parsed.hostinfo = (parsed.netloc, none) := by
    unfold SplitResult.hostinfo
    rw [Text.rpartition_none (hno (by decide))]
    dsimp only
    rw [Text.partition_none (hno (by decide))]
    dsimp only
    rw [Text.partition_none (hno (by decide))]
    rfl
  have hascii : Text.isAscii parsed.netloc = true := by
    rw [Text.isAscii, List.all_eq_true]
    intro c hc
    have hle : c.toNat ≤ 32 := of_decide_eq_true (hnetloc c hc)
    exact decide_eq_true (by omega)
  unfold SplitResult.hostname at hhost
  rw [hinfo] at hhost
  dsimp only at hhost
  split at hhost
  · cases hhost
  · rw [Text.partition_none (hno (by decide)), env.unicode.lower_ascii _ hascii] at hhost
    obtain rfl := Option.some.inj hhost
    rw [← Bool.not_eq_true]
    intro hname
    have hdot := hostname_dot hname
    simp only [Bool.false_eq_true, if_false, List.append_nil] at hdot
    obtain ⟨c, hc, hcdot⟩ := List.mem_map.mp hdot
    have hle : c.toNat ≤ 32 := of_decide_eq_true (hnetloc c hc)
    have hupper : ¬c.isUpper = true := by
      rw [Text.isUpper_iff]
      omega
    rw [Text.toLower_of_not_upper hupper] at hcdot
    exact control_below (hnetloc c hc) (by decide) hcdot

theorem schemeless_host (hclean : ∀ c ∈ text, isUnsafeByte c = false)
    (hscheme : hasScheme text = false)
    (hnetloc : (authority (splitScheme (stripped text)).2).1 ≠ []) {parsed : SplitResult}
    (hsplit : urlsplit env.unicode env.isIPv6 (withScheme text) = some parsed) {host : Text}
    (hhost : parsed.hostname env.unicode = some host) : isHostname host = false := by
  obtain ⟨-, controls, after, htext, hcontrols⟩ := schemeless_authority hclean hscheme hnetloc
  have haddress : withScheme text = "https".toList ++ ':' :: ('/' :: '/' :: text) := by
    simp [withScheme, hscheme]
  have hkept : ('/' :: '/' :: text).filter (fun c => !isUnsafeByte c) = '/' :: '/' :: text := by
    rw [List.filter_eq_self]
    intro c hc
    rcases List.mem_cons.mp hc with rfl | hc
    · rfl
    · rcases List.mem_cons.mp hc with rfl | hc
      · rfl
      · simp [hclean c hc]
  have hparts : authority (splitScheme (stripped (withScheme text))).2 =
      (controls, '/' :: '/' :: after) := by
    rw [haddress, stripped_scheme .https, hkept, IsScheme.https.split, htext]
    refine authority_append (fun c hc => ?_) (fun c hc => ?_)
    · have hbelow := hcontrols c hc
      simp [isDelimiter, control_below hbelow (show 32 < '/'.toNat by decide),
        control_below hbelow (show 32 < '?'.toNat by decide),
        control_below hbelow (show 32 < '#'.toNat by decide)]
    · obtain rfl : '/' = c := by simpa using hc
      rfl
  obtain ⟨-, rfl⟩ := urlsplit_some hsplit
  refine hostname_controls ?_ hhost
  rw [hparts]
  exact hcontrols

theorem address_valid_iff {site : Site} (h : readSite env text = some site)
    (hscheme : IsScheme site.parts.scheme) :
    validateUrlField env (some (site.address env)) = .ok .valid ↔ showsSite env text = true := by
  obtain ⟨haddress, hsplit, hhost, hport, hname⟩ := readSite_some h
  have hkept : keptAsWritten env text site.parts = false := by
    simp [keptAsWritten, (webAddress_some haddress).1, hport]
  have hwww := isHostname_siteHost hname
  rw [validateUrlField_valid (Site.urlsplit_address h hscheme) (hostname_address h rfl), showsSite,
    hsplit]
  simp [hhost, hname, hkept, hwww]

/-- Where a domain is extracted, the grade of the website is read off the text as given. -/
theorem website_valid_iff (hclean : ∀ c ∈ text, isUnsafeByte c = false) {domain : Text}
    (hdomain : extractDomain env (some (writtenSite env text)) = some domain) :
    validateUrlField env (some (writtenSite env text)) = .ok .valid ↔
      showsSite env text = true := by
  obtain ⟨parsed, host, hsplit, hhost⟩ := extractDomain_some hdomain
  cases hread : readSite env text with
  | some site =>
      rw [writtenSite_some hread] at hsplit ⊢
      obtain ⟨-, hparts, -, -, -⟩ := readSite_some hread
      rcases urlsplit_scheme hparts with hnone | hscheme
      · have hbare := Site.authority_address hread hnone
        rw [urlsplit_bare hbare] at hsplit
        obtain rfl := Option.some.inj hsplit
        exact absurd rfl (hostname_netloc hhost)
      · exact address_valid_iff hread hscheme
  | none =>
      rw [writtenSite_none hread] at hsplit ⊢
      rw [validateUrlField_valid hsplit hhost]
      cases hs : hasScheme text with
      | true =>
          have hsame : withScheme text = text := by simp [withScheme, hs]
          have hkept : isHostname host = true → keptAsWritten env text parsed = true := by
            intro hname
            cases hother : otherScheme env text with
            | true => simp [keptAsWritten, hs, hother]
            | false =>
                have hweb : webAddress env text = some text := by
                  simp [webAddress, contactLink, hother, hs, hsame]
                cases hport : parsed.port with
                | none => simp [keptAsWritten, hs, hport]
                | some port => simp [readSite, hweb, hsplit, hhost, hport, hname] at hread
          rw [showsSite, hsame, hsplit]
          simp only [Option.any_some, hhost, Bool.and_eq_true, Bool.or_eq_true]
          constructor
          · rintro ⟨hscheme, hname⟩
            exact ⟨hscheme, hname, .inr (hkept hname)⟩
          · rintro ⟨hscheme, hname, -⟩
            exact ⟨hscheme, hname⟩
      | false =>
          have hnetloc : (authority (splitScheme (stripped text)).2).1 ≠ [] := by
            have hne := hostname_netloc hhost
            obtain ⟨-, rfl⟩ := urlsplit_some hsplit
            exact hne
          have hbare : isWebScheme parsed.scheme = false := by
            obtain ⟨-, rfl⟩ := urlsplit_some hsplit
            simp [resultOf, (schemeless_authority hclean hs hnetloc).1, isWebScheme]
          have hhidden : showsSite env text = false := by
            rw [showsSite, ← Bool.not_eq_true, Option.any_eq_true]
            rintro ⟨read, hread, hshows⟩
            obtain ⟨-, hshows⟩ := Bool.and_eq_true_iff.mp hshows
            obtain ⟨found, hfound, hshows⟩ := (Option.any_eq_true _ _).mp hshows
            rw [schemeless_host hclean hs hnetloc hread hfound] at hshows
            cases hshows
          rw [hbare, hhidden]
          simp

/-- The normal form raises exactly where the text does. -/
theorem writtenSite_splits (hclean : ∀ c ∈ text, isUnsafeByte c = false) :
    (urlsplit env.unicode env.isIPv6 (writtenSite env text)).isSome =
      (urlsplit env.unicode env.isIPv6 text).isSome := by
  cases hread : readSite env text with
  | none => rw [writtenSite_none hread]
  | some site =>
      rw [writtenSite_some hread]
      obtain ⟨-, hparts, hhost, -, hname⟩ := readSite_some hread
      have hwritten : (urlsplit env.unicode env.isIPv6 (site.address env)).isSome = true := by
        rcases urlsplit_scheme hparts with hnone | hscheme
        · rw [urlsplit_bare (Site.authority_address hread hnone)]
          rfl
        · rw [Site.urlsplit_address hread hscheme]
          rfl
      have htext : (urlsplit env.unicode env.isIPv6 text).isSome = true := by
        cases hs : hasScheme text with
        | true =>
            have hsame : withScheme text = text := by simp [withScheme, hs]
            rw [← hsame, hparts]
            rfl
        | false =>
            by_cases hnetloc : (authority (splitScheme (stripped text)).2).1 = []
            · rw [urlsplit_bare hnetloc]
              rfl
            · rw [schemeless_host hclean hs hnetloc hparts hhost] at hname
              cases hname
      rw [hwritten, htext]

end LeadPipe
