import LeadPipe.Normalization.NormalForm
import LeadPipe.Validation.Websites

/-!
# Websites and their grades

The validator splits what the normaliser wrote. The grade says whether the text is a website, but
for a text that cannot be split, for a port that is no port number, and for `www.` in front of a
single label.
-/

namespace LeadPipe

open Urllib

variable (env : Platform)

def showsHost (parsed : SplitResult) : Bool :=
  isWebScheme parsed.scheme && (parsed.hostname env.unicode).any isHostname

/-- A text without a scheme is completed, unless it is a mail address or a telephone number. -/
def givenAddress (text : Text) : Text := if contactLink env text then text else withScheme text

/-- The text is the address of a website, and its port is valid if it has one. -/
def isWebsite (text : Text) : Bool :=
  (urlsplit env.unicode env.isIPv6 (givenAddress env text)).any fun parsed =>
    showsHost env parsed && parsed.port.isSome

/-- The address is graded, and found valid exactly if it should be. -/
def GradedAs (valid : Bool) (url : Option Text) : Prop :=
  ∃ grade, validateUrlField env url = .ok grade ∧
    grade.status = if valid then .valid else .invalid

/-- What a text has to be for its website to be graded by it. -/
structure Gradable (text : Text) : Prop where
  splits : (urlsplit env.unicode env.isIPv6 text).isSome = true
  port : ∀ parsed, urlsplit env.unicode env.isIPv6 text = some parsed →
    showsHost env parsed = true → parsed.port.isSome = true
  www : ∀ site, readSite env text = some site → isHostname (siteHost site.host) = true

variable {env} {text : Text}

theorem gradedAs_iff {valid : Bool} {url : Text} :
    GradedAs env valid (some url) ↔
      ∃ parsed, urlsplit env.unicode env.isIPv6 url = some parsed ∧
        showsHost env parsed = valid := by
  unfold GradedAs
  cases hsplit : urlsplit env.unicode env.isIPv6 url with
  | none => simp [validateUrlField, hsplit]
  | some parsed =>
      rw [validateUrlField_eq hsplit]
      simp only [Except.ok.injEq, Option.some.injEq, exists_eq_left', showsHost]
      cases isWebScheme parsed.scheme with
      | false => cases valid <;> simp [FieldValidation.invalid]
      | true =>
          cases (parsed.hostname env.unicode).any isHostname
          all_goals cases valid <;> simp [FieldValidation.invalid, FieldValidation.valid]

theorem schemeless_hidden (hclean : ∀ c ∈ text, isUnsafeByte c = false)
    (hscheme : hasScheme text = false) {parsed : SplitResult}
    (hsplit : urlsplit env.unicode env.isIPv6 text = some parsed) :
    showsHost env parsed = false := by
  cases hhost : parsed.hostname env.unicode with
  | none => simp [showsHost, hhost]
  | some host =>
      have hnetloc := hostname_netloc hhost
      obtain ⟨-, rfl⟩ := urlsplit_some hsplit
      have hnone := (schemeless_authority hclean hscheme hnetloc).1
      simp [showsHost, resultOf, hnone, isWebScheme]

theorem isWebsite_kept (hclean : ∀ c ∈ text, isUnsafeByte c = false)
    (hread : readSite env text = none) {parsed : SplitResult}
    (hsplit : urlsplit env.unicode env.isIPv6 text = some parsed) :
    isWebsite env text = (showsHost env parsed && parsed.port.isSome) := by
  cases hs : hasScheme text with
  | true =>
      have hgiven : givenAddress env text = text := by simp [givenAddress, withScheme, hs]
      rw [isWebsite, hgiven, hsplit, Option.any_some]
  | false =>
      rw [schemeless_hidden hclean hs hsplit, Bool.false_and]
      cases hcontact : contactLink env text with
      | true =>
          have hgiven : givenAddress env text = text := by simp [givenAddress, hcontact]
          rw [isWebsite, hgiven, hsplit, Option.any_some, schemeless_hidden hclean hs hsplit,
            Bool.false_and]
      | false =>
          have hgiven : givenAddress env text = withScheme text := by simp [givenAddress, hcontact]
          have hweb : webAddress env text = some (withScheme text) := by
            simp [webAddress, otherScheme, hs, hcontact]
          rw [isWebsite, hgiven, ← Bool.not_eq_true]
          intro hsite
          obtain ⟨found, hfound, hshows⟩ := (Option.any_eq_true _ _).mp hsite
          rw [Bool.and_eq_true_iff, showsHost, Bool.and_eq_true_iff] at hshows
          obtain ⟨host, hhost, hname⟩ := (Option.any_eq_true _ _).mp hshows.1.2
          obtain ⟨port, hport⟩ := Option.isSome_iff_exists.mp hshows.2
          simp [readSite, hweb, hfound, hhost, hport, hname] at hread

theorem gradable_kept (hclean : ∀ c ∈ text, isUnsafeByte c = false)
    (hread : readSite env text = none) :
    GradedAs env (isWebsite env text) (some text) ↔ Gradable env text := by
  rw [gradedAs_iff]
  constructor
  · rintro ⟨parsed, hsplit, hshows⟩
    rw [isWebsite_kept hclean hread hsplit] at hshows
    refine ⟨by rw [hsplit]; rfl, fun found hfound hyes => ?_, fun site hsite => ?_⟩
    · obtain rfl := Option.some.inj (hsplit.symm.trans hfound)
      rw [hyes, Bool.true_and] at hshows
      exact hshows.symm
    · rw [hread] at hsite
      cases hsite
  · intro hgrade
    obtain ⟨parsed, hsplit⟩ := Option.isSome_iff_exists.mp hgrade.splits
    refine ⟨parsed, hsplit, ?_⟩
    rw [isWebsite_kept hclean hread hsplit]
    cases hshows : showsHost env parsed with
    | true => rw [hgrade.port parsed hsplit hshows, Bool.true_and]
    | false => rw [Bool.false_and]

theorem isWebsite_read (hlower : env.unicode.LowersFront)
    (hclean : ∀ c ∈ text, isUnsafeByte c = false) {site : Site}
    (hread : readSite env text = some site) : isWebsite env text = true := by
  obtain ⟨haddress, hsplit, hhost, hport, hname⟩ := readSite_some hread
  have hgiven : givenAddress env text = withScheme text := by
    simp [givenAddress, (webAddress_some haddress).2.1]
  rw [isWebsite, hgiven, hsplit]
  simp [showsHost, readSite_scheme hlower hclean hread, hhost, hname, hport]

theorem gradable_read (hlower : env.unicode.LowersFront)
    (hclean : ∀ c ∈ text, isUnsafeByte c = false) {site : Site}
    (hread : readSite env text = some site) :
    GradedAs env (isWebsite env text) (some (writtenSite env text)) ↔ Gradable env text := by
  obtain ⟨-, hparts, -, hport, hname⟩ := readSite_some hread
  have hweb := readSite_scheme hlower hclean hread
  have hscheme := isScheme_web hweb
  have hsplit := Site.urlsplit_address hread hscheme
  have hwritten := writtenSite_some hread
  have hwww := isHostname_siteHost hname
  have hshows : showsHost env ⟨site.parts.scheme, site.authority, site.path, site.query env, []⟩ =
      isHostname (siteHost site.host) := by
    rw [showsHost, hweb, hostname_address hread rfl, hwww]
    rfl
  have htext : (urlsplit env.unicode env.isIPv6 (writtenSite env text)).isSome = _ :=
    writtenSite_splits hclean
  rw [hwritten, hsplit] at htext
  rw [isWebsite_read hlower hclean hread, hwritten, gradedAs_iff]
  constructor
  · rintro ⟨parsed, hparsed, hyes⟩
    obtain rfl := Option.some.inj (hsplit.symm.trans hparsed)
    rw [hshows] at hyes
    refine ⟨htext.symm, fun found hfound hhost => ?_, fun other hother => ?_⟩
    · cases hs : hasScheme text with
      | false =>
          rw [schemeless_hidden hclean hs hfound] at hhost
          cases hhost
      | true =>
          have hsame : withScheme text = text := by simp [withScheme, hs]
          rw [hsame] at hparts
          obtain rfl := Option.some.inj (hparts.symm.trans hfound)
          rw [hport]
          rfl
    · obtain rfl := Option.some.inj (hread.symm.trans hother)
      exact hyes
  · intro hgrade
    exact ⟨_, hsplit, hshows.trans (hgrade.www site hread)⟩

theorem writtenSite_graded_iff (hlower : env.unicode.LowersFront) {s : Text}
    (htext : cleanText env (some s) = some text) :
    GradedAs env (isWebsite env text) (normalizeUrl env (some s)) ↔ Gradable env text := by
  have hclean := cleanText_safe htext
  rw [normalizeUrl_eq, htext, Option.map_some]
  cases hread : readSite env text with
  | some site => exact gradable_read hlower hclean hread
  | none =>
      rw [writtenSite_none hread]
      exact gradable_kept hclean hread

end LeadPipe
