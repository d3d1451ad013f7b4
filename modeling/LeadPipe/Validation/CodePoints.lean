import LeadPipe.Normalization.CodePoints
import LeadPipe.Validation.Grades

/-!
# Websites and their grades, for every string

The validator over every string. It grades a string as it grades the text the string shows, so what
is known of texts carries over where the normaliser does not raise.
-/

namespace LeadPipe

namespace Str

open Urllib

variable (uc : Unicode) (isIPv6 : Str → Bool)

def validateUrlField (value : Option Str) : Except PyError FieldValidation :=
  match value with
  | none => .ok .unknown
  | some v =>
      match urlsplit uc isIPv6 v with
      | none => .error .valueError
      | some parsed =>
          if !(parsed.scheme == "http".toList || parsed.scheme == "https".toList) then
            .ok (.invalid "scheme")
          else
            match parsed.hostname uc with
            | some host => .ok (if isHostname host then .valid else .invalid "syntax")
            | none => .ok (.invalid "syntax")

def showsHost (parsed : SplitResult) : Bool :=
  isWebScheme parsed.scheme && (parsed.hostname uc).any isHostname

/-- A string without a scheme is completed, unless it is a mail address or a telephone number. -/
def givenAddress (text : Str) : Str := if contactLink uc text then text else withScheme text

/-- The string is the address of a website, and its port is valid if it has one. -/
def isWebsite (text : Str) : Bool :=
  (urlsplit uc isIPv6 (givenAddress uc text)).any fun parsed =>
    showsHost uc parsed && parsed.port.isSome

/-- Normaliser and validator return, and find the website valid exactly if it should be. -/
def GradedAs (valid : Bool) (value : Option Str) : Prop :=
  ∃ url grade, normalizeUrl uc isIPv6 value = .ok url ∧
    validateUrlField uc isIPv6 url = .ok grade ∧
      grade.status = if valid then .valid else .invalid

/-- What a string has to be for its website to be graded by it. -/
structure Gradable (text : Str) : Prop where
  splits : (urlsplit uc isIPv6 text).isSome = true
  port : ∀ parsed, urlsplit uc isIPv6 text = some parsed →
    showsHost uc parsed = true → parsed.port.isSome = true
  www : ∀ site, readSite uc isIPv6 text = some site → isHostname (siteHost site.host) = true
  encodes : ∀ site, readSite uc isIPv6 text = some site → site.Encodes uc

variable {uc isIPv6} {s text : Str}

theorem shown_validateUrlField (huc : uc.KeepsPrivate) (hip : ReadsAlike isIPv6)
    (value : Option Str) :
    LeadPipe.validateUrlField (platform uc isIPv6) (value.map shown) =
      validateUrlField uc isIPv6 value := by
  cases value with
  | none => rfl
  | some v =>
      have hsplit : Urllib.urlsplit (platform uc isIPv6).unicode (platform uc isIPv6).isIPv6
          (shown v) = (urlsplit uc isIPv6 v).map SplitResult.shown := shown_urlsplit huc hip v
      rw [Option.map_some, LeadPipe.validateUrlField, validateUrlField, hsplit]
      cases urlsplit uc isIPv6 v with
      | none => rfl
      | some parsed =>
          have hhost : parsed.shown.hostname (platform uc isIPv6).unicode =
              (parsed.hostname uc).map shown := parsed.shown_hostname huc
          dsimp only [Option.map_some]
          rw [hhost]
          cases parsed.hostname uc with
          | none => rfl
          | some host =>
              dsimp only [Option.map_some]
              rw [shown_isHostname]
              rfl

theorem shown_showsHost (huc : uc.KeepsPrivate) (parsed : SplitResult) :
    LeadPipe.showsHost (platform uc isIPv6) parsed.shown = showsHost uc parsed := by
  have hhost : parsed.shown.hostname (platform uc isIPv6).unicode =
      (parsed.hostname uc).map shown := parsed.shown_hostname huc
  rw [LeadPipe.showsHost, showsHost, hhost]
  cases parsed.hostname uc with
  | none => rfl
  | some host =>
      rw [Option.map_some, Option.any_some, Option.any_some, shown_isHostname]
      rfl

theorem shown_isWebsite (huc : uc.KeepsPrivate) (hip : ReadsAlike isIPv6) (text : Str) :
    LeadPipe.isWebsite (platform uc isIPv6) (shown text) = isWebsite uc isIPv6 text := by
  have hgiven : LeadPipe.givenAddress (platform uc isIPv6) (shown text) =
      shown (givenAddress uc text) := by
    rw [LeadPipe.givenAddress, givenAddress, shown_contactLink huc, shown_withScheme]
    split <;> rfl
  have hsplit : Urllib.urlsplit (platform uc isIPv6).unicode (platform uc isIPv6).isIPv6
      (shown (givenAddress uc text)) =
        (urlsplit uc isIPv6 (givenAddress uc text)).map SplitResult.shown :=
    shown_urlsplit huc hip _
  rw [LeadPipe.isWebsite, isWebsite, hgiven, hsplit]
  cases urlsplit uc isIPv6 (givenAddress uc text) with
  | none => rfl
  | some parsed =>
      rw [Option.map_some, Option.any_some, Option.any_some, shown_showsHost huc,
        parsed.shown_port]

theorem gradable_iff_shown (huc : uc.KeepsPrivate) (hip : ReadsAlike isIPv6) :
    Gradable uc isIPv6 text ↔ LeadPipe.Gradable (platform uc isIPv6) (shown text) ∧
      ∀ site, readSite uc isIPv6 text = some site → site.Encodes uc := by
  have hsplit : Urllib.urlsplit (platform uc isIPv6).unicode (platform uc isIPv6).isIPv6
      (shown text) = (urlsplit uc isIPv6 text).map SplitResult.shown := shown_urlsplit huc hip text
  have hread : LeadPipe.readSite (platform uc isIPv6) (shown text) = _ := shown_readSite huc hip text
  have hhost (host : Str) : LeadPipe.siteHost (shown host) = shown (siteHost host) :=
    shown_removePrefix (by decide)
  constructor
  · intro h
    refine ⟨⟨?_, ?_, ?_⟩, h.encodes⟩
    · rw [hsplit, Option.isSome_map]
      exact h.splits
    · intro parsed hparsed hshows
      rw [hsplit] at hparsed
      obtain ⟨read, hread, rfl⟩ := Option.map_eq_some_iff.mp hparsed
      rw [shown_showsHost huc] at hshows
      rw [read.shown_port]
      exact h.port read hread hshows
    · intro site hsite
      rw [hread] at hsite
      obtain ⟨read, hread, rfl⟩ := Option.map_eq_some_iff.mp hsite
      change LeadPipe.isHostname (LeadPipe.siteHost (shown read.host)) = true
      rw [hhost, shown_isHostname]
      exact h.www read hread
  · rintro ⟨h, hencodes⟩
    refine ⟨?_, ?_, ?_, hencodes⟩
    · have hshown := h.splits
      rwa [hsplit, Option.isSome_map] at hshown
    · intro parsed hparsed hshows
      rw [← parsed.shown_port]
      refine h.port parsed.shown ?_ ?_
      · rw [hsplit, hparsed]
        rfl
      · rwa [shown_showsHost huc]
    · intro site hsite
      rw [← shown_isHostname, ← hhost]
      refine h.www site.shown ?_
      rw [hread, hsite]
      rfl

/-- Where every parameter is encoded, the normaliser returns what it makes of the text shown. -/
theorem shown_writtenSite (huc : uc.KeepsPrivate) (hip : ReadsAlike isIPv6)
    (hencodes : ∀ site, readSite uc isIPv6 text = some site → site.Encodes uc) :
    ∃ url, writtenSite uc isIPv6 text = .ok url ∧
      shown url = LeadPipe.writtenSite (platform uc isIPv6) (shown text) := by
  have hshown := shown_readSite huc hip text
  rw [writtenSite]
  cases hread : readSite uc isIPv6 text with
  | none =>
      rw [hread] at hshown
      exact ⟨text, rfl, (writtenSite_none hshown).symm⟩
  | some site =>
      rw [hread] at hshown
      obtain ⟨url, haddress, hurl⟩ :
          ∃ url, site.address uc = .ok url ∧
            shown url = site.shown.address (platform uc isIPv6) :=
        shown_address huc (hencodes site hread)
      exact ⟨url, haddress, hurl.trans (writtenSite_some hshown).symm⟩

theorem gradedAs_iff_shown (huc : uc.KeepsPrivate) (hip : ReadsAlike isIPv6) {valid : Bool}
    (htext : cleanText uc (some s) = some text)
    (hencodes : ∀ site, readSite uc isIPv6 text = some site → site.Encodes uc) :
    GradedAs uc isIPv6 valid (some s) ↔
      LeadPipe.GradedAs (platform uc isIPv6) valid
        (LeadPipe.normalizeUrl (platform uc isIPv6) (some (shown s))) := by
  have hclean : LeadPipe.cleanText (platform uc isIPv6) (some (shown s)) = some (shown text) :=
    shown_cleaned huc htext
  obtain ⟨url, hwritten, hurl⟩ := shown_writtenSite huc hip hencodes
  have hnormal : normalizeUrl uc isIPv6 (some s) = .ok (some url) := by
    rw [normalizeUrl_some uc isIPv6 htext, hwritten]
    rfl
  have hgrade := shown_validateUrlField huc hip (some url)
  rw [Option.map_some, hurl] at hgrade
  unfold GradedAs LeadPipe.GradedAs
  rw [normalizeUrl_eq, hclean, Option.map_some, hnormal, hgrade]
  constructor
  · rintro ⟨found, grade, hfound, hok, hstatus⟩
    obtain rfl := Except.ok.inj hfound
    exact ⟨grade, hok, hstatus⟩
  · rintro ⟨grade, hok, hstatus⟩
    exact ⟨some url, grade, rfl, hok, hstatus⟩

theorem not_gradedAs {valid : Bool} (htext : cleanText uc (some s) = some text) {site : Site}
    (hread : readSite uc isIPv6 text = some site) (hraises : ¬site.Encodes uc) :
    ¬GradedAs uc isIPv6 valid (some s) := by
  rintro ⟨url, grade, hok, -⟩
  rw [normalizeUrl_some uc isIPv6 htext, writtenSite, hread] at hok
  dsimp only at hok
  rw [address_raises hraises] at hok
  cases hok

end Str

open Str in
/-- The grade of a website says whether the string is one exactly if the string can be split, a
port written with a host name is a port number, the host is more than `www.` and one label, and
no parameter that is kept has a surrogate. -/
theorem website_judged_iff {uc : Unicode} {isIPv6 : Str → Bool} (hlower : uc.LowersFront)
    (huc : uc.KeepsPrivate) (hip : ReadsAlike isIPv6) {s text : Str}
    (htext : Str.cleanText uc (some s) = some text) :
    Str.GradedAs uc isIPv6 (Str.isWebsite uc isIPv6 text) (some s) ↔
      Str.Gradable uc isIPv6 text := by
  have hclean : LeadPipe.cleanText (platform uc isIPv6) (some (shown s)) = some (shown text) :=
    shown_cleaned huc htext
  rw [gradable_iff_shown huc hip]
  by_cases hencodes : ∀ site, Str.readSite uc isIPv6 text = some site → site.Encodes uc
  · have hlower' : (platform uc isIPv6).unicode.LowersFront := hlower
    rw [gradedAs_iff_shown huc hip htext hencodes, ← shown_isWebsite huc hip,
      writtenSite_graded_iff hlower' hclean]
    exact (and_iff_left hencodes).symm
  · obtain ⟨site, hsite⟩ := not_forall.mp hencodes
    obtain ⟨hread, hraises⟩ := Classical.not_imp.mp hsite
    refine iff_of_false (not_gradedAs htext hread hraises) ?_
    exact fun h => hraises (h.2 site hread)

/-- A surrogate in the path is kept and harms nothing. -/
theorem website_judged_iff_acme :
    Str.GradedAs .ascii (fun _ => false)
        (Str.isWebsite .ascii (fun _ => false)
          (Str.ofText "www.acme.fi:8080/".toList ++ [.surrogate 0]))
        (some (Str.ofText " www.acme.fi:8080/".toList ++ [.surrogate 0])) ↔
      Str.Gradable .ascii (fun _ => false)
        (Str.ofText "www.acme.fi:8080/".toList ++ [.surrogate 0]) :=
  website_judged_iff Unicode.ascii_lowersFront Unicode.ascii_keepsPrivate (fun _ => rfl)
    (by decide +kernel)

/-- The normaliser keeps a string that cannot be split, and the validator raises at it. -/
theorem website_not_judged :
    ¬∀ (uc : Unicode) (isIPv6 : Str → Bool), uc.LowersFront → uc.KeepsPrivate →
      Str.ReadsAlike isIPv6 → ∀ s text : Str, Str.cleanText uc (some s) = some text →
        Str.GradedAs uc isIPv6 (Str.isWebsite uc isIPv6 text) (some s) := by
  intro h
  obtain ⟨url, grade, hurl, hgrade, -⟩ := h .ascii (fun _ => false) Unicode.ascii_lowersFront
    Unicode.ascii_keepsPrivate (fun _ => rfl) (Str.ofText "http://[acme.fi".toList)
    (Str.ofText "http://[acme.fi".toList) (by decide +kernel)
  have hkept : Str.normalizeUrl .ascii (fun _ => false)
      (some (Str.ofText "http://[acme.fi".toList)) =
        .ok (some (Str.ofText "http://[acme.fi".toList)) := by decide +kernel
  obtain rfl := Except.ok.inj (hkept.symm.trans hurl)
  have hraised : Str.validateUrlField .ascii (fun _ => false)
      (some (Str.ofText "http://[acme.fi".toList)) = .error .valueError := by decide +kernel
  rw [hraised] at hgrade
  cases hgrade

/-- A port out of range is found valid, a website at `www.fi` invalid, and the normaliser raises at
a surrogate in the query. -/
example :
    (Str.normalizeUrl .ascii (fun _ => false) (some (Str.ofText "https://acme.fi:99999".toList)) >>=
        Str.validateUrlField .ascii (fun _ => false)) = .ok .valid ∧
      (Str.normalizeUrl .ascii (fun _ => false) (some (Str.ofText "www.fi".toList)) >>=
        Str.validateUrlField .ascii (fun _ => false)) = .ok (.invalid "syntax") ∧
      Str.normalizeUrl .ascii (fun _ => false)
        (some (Str.ofText "https://acme.fi/?q=".toList ++ [.surrogate 0])) =
          .error .valueError := by
  decide +kernel

end LeadPipe
