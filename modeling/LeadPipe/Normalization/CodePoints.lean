import LeadPipe.Normalization.Sites
import LeadPipe.Python.CodePoints

/-!
# Websites with lone surrogates

`clean_text` and `normalize_url` over every string. They do with a string what they do with the
text it shows, but for `urlencode`, which raises at a surrogate, and nothing catches that.
-/

namespace LeadPipe.Str

open CodePoint Urllib

variable (uc : Unicode) (isIPv6 : Str → Bool)

def collapseSpace (space : Char → Bool) : Bool → Str → Str
  | _, [] => []
  | inRun, a :: s =>
      if has space a then
        if inRun then collapseSpace space true s else scalar ' ' :: collapseSpace space true s
      else a :: collapseSpace space false s

def cleanText (value : Option Str) : Option Str :=
  value.bind fun v =>
    Text.orNone (Text.strip (has uc.isSpace) (collapseSpace uc.isSpace false v))

/-- `HOSTNAME.match`: the pattern names ASCII characters only. -/
def isHostname (host : Str) : Bool := (toText host).any LeadPipe.isHostname

/-- `p[0].lower() in TRACKING_PARAMS`. -/
def isTracking (name : Str) : Bool := (toText (lower uc name)).any trackingParams.contains

def startsWithAny (pres : List Text) (s : Str) : Bool :=
  pres.any fun pre => Text.startsWith (ofText pre) s

def normalizeUrl (value : Option Str) : Except PyError (Option Str) :=
  match cleanText uc value with
  | none => .ok none
  | some text =>
      let lowered := lower uc text
      let hasScheme := Text.containsSub (ofText "://".toList) text
      if hasScheme && !startsWithAny ["http://".toList, "https://".toList] lowered then .ok text
      else if !hasScheme && text.contains (scalar ':') &&
          startsWithAny ["mailto:".toList, "tel:".toList] lowered then .ok text
      else
        let candidate := if hasScheme then text else ofText "https://".toList ++ text
        match urlsplit uc isIPv6 candidate with
        | none => .ok text
        | some parsed =>
            match parsed.hostname uc, parsed.port with
            | some host, some port =>
                if !isHostname host then .ok text
                else
                  let host := Text.removePrefix (ofText wwwPrefix) host
                  let netloc :=
                    match port with
                    | some p =>
                        if some p ≠ defaultPorts.get parsed.scheme then
                          host ++ ofText (':' :: Text.ofNat p)
                        else host
                    | none => host
                  let kept := sortParams ((parseQsl parsed.query).filter fun p =>
                    !isTracking uc p.1)
                  (urlencode kept).map fun query =>
                    urlunsplit parsed.scheme netloc (Text.rstrip (· == scalar '/') parsed.path)
                      query []
            | _, _ => .ok text

def hasScheme (text : Str) : Bool := Text.containsSub (ofText "://".toList) text

def otherScheme (text : Str) : Bool :=
  hasScheme text && !startsWithAny ["http://".toList, "https://".toList] (lower uc text)

def contactLink (text : Str) : Bool :=
  !hasScheme text && text.contains (scalar ':') &&
    startsWithAny ["mailto:".toList, "tel:".toList] (lower uc text)

def withScheme (text : Str) : Str :=
  if hasScheme text then text else ofText "https://".toList ++ text

def webAddress (text : Str) : Option Str :=
  if otherScheme uc text || contactLink uc text then none else some (withScheme text)

structure Site where
  parts : SplitResult
  host : Str
  port : Option Nat

def readSite (text : Str) : Option Site :=
  (webAddress uc text).bind fun address =>
    (urlsplit uc isIPv6 address).bind fun parsed =>
      (parsed.hostname uc).bind fun host =>
        parsed.port.bind fun port => if isHostname host then some ⟨parsed, host, port⟩ else none

def siteHost (host : Str) : Str := Text.removePrefix (ofText wwwPrefix) host

namespace Site

variable (site : Site)

def portPart : Text :=
  match site.port with
  | some p =>
      if some p ≠ defaultPorts.get site.parts.scheme then ':' :: Text.ofNat p else []
  | none => []

def kept : List (Str × Str) := (parseQsl site.parts.query).filter fun p => !isTracking uc p.1

def address : Except PyError Str :=
  (urlencode (sortParams (site.kept uc))).map fun query =>
    urlunsplit site.parts.scheme (siteHost site.host ++ ofText site.portPart)
      (Text.rstrip (· == scalar '/') site.parts.path) query []

end Site

def writtenSite (text : Str) : Except PyError Str :=
  match readSite uc isIPv6 text with
  | some site => site.address uc
  | none => .ok text

theorem normalizeUrl_some {value : Option Str} {text : Str} (h : cleanText uc value = some text) :
    normalizeUrl uc isIPv6 value = (writtenSite uc isIPv6 text).map some := by
  have haddress : (if Text.containsSub (ofText "://".toList) text = true then text
      else ofText "https://".toList ++ text) = withScheme text := rfl
  unfold normalizeUrl
  rw [h]
  change (if otherScheme uc text = true then Except.ok (some text)
    else if contactLink uc text = true then Except.ok (some text) else _) = _
  unfold writtenSite readSite webAddress
  cases otherScheme uc text with
  | true => rfl
  | false =>
      cases contactLink uc text with
      | true => rfl
      | false =>
          simp only [Bool.or_self, Bool.false_eq_true, if_false, Option.bind_some, haddress]
          cases urlsplit uc isIPv6 (withScheme text) with
          | none => rfl
          | some parsed =>
              simp only [Option.bind_some]
              cases parsed.hostname uc with
              | none => rfl
              | some host =>
                  cases parsed.port with
                  | none => rfl
                  | some port =>
                      simp only [Option.bind_some]
                      cases isHostname host with
                      | false => rfl
                      | true =>
                          have hnetloc : (match port with
                              | some p =>
                                  if some p ≠ defaultPorts.get parsed.scheme then
                                    siteHost host ++ ofText (':' :: Text.ofNat p)
                                  else siteHost host
                              | none => siteHost host) =
                              siteHost host ++ ofText (Site.portPart ⟨parsed, host, port⟩) := by
                            unfold Site.portPart
                            cases port with
                            | none => simp [ofText]
                            | some p =>
                                by_cases hp : some p = defaultPorts.get parsed.scheme
                                · simp [hp, ofText]
                                · simp [hp]
                          simp only [Bool.not_true, Bool.false_eq_true, if_false, if_true]
                          rw [Site.address, ← hnetloc, Site.kept]
                          cases urlencode (sortParams ((parseQsl parsed.query).filter fun p =>
                            !isTracking uc p.1)) <;> rfl

/-- The platform as it reads what a string shows. -/
def platform : Platform :=
  { Platform.ascii with unicode := uc, isIPv6 := fun host => isIPv6 (ofText host) }

variable {uc isIPv6} {s text : Str}

theorem shown_collapseSpace {space : Char → Bool} (hspace : space standIn = false) (inRun : Bool) :
    LeadPipe.collapseSpace space inRun (shown s) = shown (collapseSpace space inRun s) := by
  induction s generalizing inRun with
  | nil => rfl
  | cons a s ih =>
      have hhead : space a.shown = has space a := congrFun (shown_has hspace) a
      change LeadPipe.collapseSpace space inRun (a.shown :: shown s) = _
      rw [LeadPipe.collapseSpace, collapseSpace, hhead, ih, ih]
      cases has space a <;> cases inRun <;> rfl

theorem shown_cleanText (huc : uc.KeepsPrivate) (value : Option Str) :
    LeadPipe.cleanText (platform uc isIPv6) (value.map shown) =
      (cleanText uc value).map shown := by
  cases value with
  | none => rfl
  | some s =>
      have hstrip (s : Str) : Text.strip uc.isSpace (shown s) =
          shown (Text.strip (has uc.isSpace) s) := by
        rw [← shown_has huc.space]
        exact Text.strip_map
      have horNone (s : Str) : Text.orNone (shown s) = (Text.orNone s).map shown := by
        cases s <;> rfl
      change Text.orNone (Text.strip uc.isSpace
        (LeadPipe.collapseSpace uc.isSpace false (shown s))) = _
      rw [shown_collapseSpace huc.space, hstrip, horNone]
      rfl

theorem shown_cleaned (huc : uc.KeepsPrivate) (h : cleanText uc (some s) = some text) :
    LeadPipe.cleanText (platform uc isIPv6) (some (shown s)) = some (shown text) := by
  have hshown : LeadPipe.cleanText (platform uc isIPv6) (some (shown s)) =
      (cleanText uc (some s)).map shown := shown_cleanText huc (some s)
  rwa [h] at hshown

theorem shown_isHostname (host : Str) : LeadPipe.isHostname (shown host) = isHostname host := by
  refine (toText_any fun t ht hmem => ?_).symm
  rcases hostname_char ht hmem with hsite | hbreak
  · exact absurd hsite (by decide)
  · exact absurd hbreak (by decide)

theorem shown_isTracking (huc : uc.KeepsPrivate) (name : Str) :
    trackingParams.contains (uc.lower (shown name)) = isTracking uc name := by
  rw [isTracking, toText_any, shown_lower huc]
  intro t ht hmem
  have hascii : ∀ t ∈ trackingParams, standIn ∉ t := by decide
  exact hascii t (List.contains_iff_mem.mp ht) hmem

theorem shown_hasScheme (text : Str) : LeadPipe.hasScheme (shown text) = hasScheme text :=
  shown_containsSub (by decide)

theorem shown_withScheme (text : Str) :
    LeadPipe.withScheme (shown text) = shown (withScheme text) := by
  rw [LeadPipe.withScheme, withScheme, shown_hasScheme]
  split
  · rfl
  · rw [shown_append, shown_ofText]

theorem shown_otherScheme (huc : uc.KeepsPrivate) (text : Str) :
    LeadPipe.otherScheme (platform uc isIPv6) (shown text) = otherScheme uc text := by
  have hlower : (platform uc isIPv6).unicode.lower (shown text) = shown (lower uc text) :=
    (shown_lower huc).symm
  rw [LeadPipe.otherScheme, otherScheme, shown_hasScheme, hlower, shown_startsWith (by decide),
    shown_startsWith (by decide)]
  simp [startsWithAny]

theorem shown_contactLink (huc : uc.KeepsPrivate) (text : Str) :
    LeadPipe.contactLink (platform uc isIPv6) (shown text) = contactLink uc text := by
  have hlower : (platform uc isIPv6).unicode.lower (shown text) = shown (lower uc text) :=
    (shown_lower huc).symm
  rw [LeadPipe.contactLink, contactLink, shown_hasScheme, hlower, shown_startsWith (by decide),
    shown_startsWith (by decide), shown_contains (by decide)]
  simp [startsWithAny]

theorem shown_webAddress (huc : uc.KeepsPrivate) (text : Str) :
    LeadPipe.webAddress (platform uc isIPv6) (shown text) = (webAddress uc text).map shown := by
  rw [LeadPipe.webAddress, webAddress, shown_otherScheme huc, shown_contactLink huc,
    shown_withScheme]
  split <;> rfl

def Site.shown (site : Site) : LeadPipe.Site :=
  ⟨site.parts.shown, Str.shown site.host, site.port⟩

theorem shown_readSite (huc : uc.KeepsPrivate) (hip : ReadsAlike isIPv6) (text : Str) :
    LeadPipe.readSite (platform uc isIPv6) (shown text) =
      (readSite uc isIPv6 text).map Site.shown := by
  rw [LeadPipe.readSite, readSite, shown_webAddress huc]
  cases webAddress uc text with
  | none => rfl
  | some address =>
      have hsplit : Urllib.urlsplit (platform uc isIPv6).unicode (platform uc isIPv6).isIPv6
          (shown address) = (urlsplit uc isIPv6 address).map SplitResult.shown :=
        shown_urlsplit huc hip address
      simp only [Option.map_some, Option.bind_some, hsplit]
      cases urlsplit uc isIPv6 address with
      | none => rfl
      | some parsed =>
          have hhost : parsed.shown.hostname (platform uc isIPv6).unicode =
              (parsed.hostname uc).map shown := parsed.shown_hostname huc
          simp only [Option.map_some, Option.bind_some, hhost, parsed.shown_port]
          cases parsed.hostname uc with
          | none => rfl
          | some host =>
              simp only [Option.map_some, Option.bind_some, shown_isHostname]
              cases parsed.port with
              | none => rfl
              | some port =>
                  simp only [Option.bind_some]
                  split <;> rfl

theorem shown_kept (huc : uc.KeepsPrivate) (site : Site) :
    (Urllib.parseQsl site.shown.parts.query).filter (fun p =>
      !trackingParams.contains (uc.lower p.1)) =
      (site.kept uc).map (Prod.map Str.shown Str.shown) := by
  have hkept : (fun p : Text × Text => !trackingParams.contains (uc.lower p.1)) ∘
      Prod.map Str.shown Str.shown = fun p => !isTracking uc p.1 := by
    funext p
    rw [Function.comp_apply, Prod.map_fst, shown_isTracking huc]
  change (Urllib.parseQsl (Str.shown site.parts.query)).filter _ = _
  rw [shown_parseQsl, List.filter_map, hkept]
  rfl

/-- No surrogate is left in the query. -/
def Site.Encodes (uc : Unicode) (site : Site) : Prop := ∀ p ∈ site.kept uc, (pairText p).isSome

theorem shown_address (huc : uc.KeepsPrivate) {site : Site} (h : site.Encodes uc) :
    ∃ url, site.address uc = .ok url ∧
      shown url = site.shown.address (platform uc isIPv6) := by
  have hquery := urlencode_texts h
  refine ⟨_, by rw [Site.address, hquery]; rfl, ?_⟩
  have hslash : (fun a => a == scalar '/') = has (· == '/') := by
    funext a
    cases a <;> simp [has]
  have hpath : Text.rstrip (· == '/') (Str.shown site.parts.path) =
      Str.shown (Text.rstrip (· == scalar '/') site.parts.path) := by
    rw [hslash, ← shown_has (by decide)]
    exact Text.rstrip_map
  have hhost : LeadPipe.siteHost (Str.shown site.host) = Str.shown (siteHost site.host) :=
    shown_removePrefix (by decide)
  rw [shown_urlunsplit, shown_append, shown_ofText, ← hpath, ← hhost, ← shown_kept huc]
  rfl

theorem address_raises {site : Site} (h : ¬site.Encodes uc) :
    site.address uc = .error .valueError := by
  have hraises : ∃ p ∈ site.kept uc, pairText p = none := by
    simpa [Site.Encodes] using h
  rw [Site.address, urlencode_raises hraises]
  rfl

end LeadPipe.Str
