import LeadPipe.Platform
import LeadPipe.Python.Urllib

/-!
# Normalisation

`app/normalization`: the fields of a record, its website, and the record as a whole. A website that
is no usable web address is kept verbatim.
-/

namespace LeadPipe

open Urllib

variable (env : Platform)

/-- `re.sub(r"\s+", " ", value)`; the flag says that the last character was a space. -/
def collapseSpace (space : Char → Bool) : Bool → Text → Text
  | _, [] => []
  | inRun, c :: cs =>
      if space c then
        if inRun then collapseSpace space true cs else ' ' :: collapseSpace space true cs
      else c :: collapseSpace space false cs

def strip (s : Text) : Text := Text.strip env.unicode.isSpace s

def cleanText (value : Option Text) : Option Text :=
  value.bind fun v => Text.orNone (strip env (collapseSpace env.unicode.isSpace false v))

def normalizeCompanyName (value : Option Text) : Option Text := cleanText env value

def normalizePersonName (value : Option Text) : Option Text := cleanText env value

def normalizeEmail (value : Option Text) : Option Text :=
  (cleanText env value).bind fun text =>
    let text := strip env (Text.removePrefix "mailto:".toList text)
    let text := strip env (Text.strip (fun c => c == '<' || c == '>') text)
    Text.orNone (env.unicode.lower text)

def normalizePhone (value : Option Text) (region : Option Text) : Option Text :=
  (cleanText env value).map fun text =>
    match env.phonenumbers.parse text region with
    | none => text
    | some parsed =>
        if env.phonenumbers.isValidNumber parsed then env.phonenumbers.formatE164 parsed
        else text

def countryAliases : Dict Text :=
  [("finland", "FI"), ("suomi", "FI"), ("sweden", "SE"), ("sverige", "SE"), ("norway", "NO"),
    ("denmark", "DK"), ("estonia", "EE"), ("germany", "DE"), ("deutschland", "DE"),
    ("netherlands", "NL"), ("the netherlands", "NL"), ("france", "FR"), ("spain", "ES"),
    ("italy", "IT"), ("poland", "PL"), ("ireland", "IE"), ("united kingdom", "GB"),
    ("great britain", "GB"), ("uk", "GB"), ("united states", "US"),
    ("united states of america", "US"), ("usa", "US")].map fun p => (p.1.toList, p.2.toList)

def normalizeCountry (value : Option Text) : Option Text :=
  (cleanText env value).map fun text =>
    let name := Text.rstrip (· == '.') (env.unicode.casefold text)
    match countryAliases.get name with
    | some code => code
    | none =>
        if text.length == 2 && env.unicode.isAlpha text then env.unicode.upper text else text

/-- Only text the source shouted or whispered is recased. -/
def normalizeCity (value : Option Text) : Option Text :=
  (cleanText env value).map fun text =>
    if env.unicode.isUpper text || env.unicode.isLower text then env.unicode.title text
    else text

def isHostChar (c : Char) : Bool :=
  ('a' ≤ c && c ≤ 'z') || ('0' ≤ c && c ≤ '9')

def isHostLabel (label : Text) : Bool :=
  match label.head?, label.getLast? with
  | some a, some b =>
      isHostChar a && isHostChar b && label.all fun c => isHostChar c || c == '-'
  | _, _ => false

/-- `HOSTNAME.match`: two labels or more. The pattern's `$` also matches before one final
line feed. -/
def isHostname (host : Text) : Bool :=
  let host := if host.getLast? = some '\n' then host.dropLast else host
  let labels := host.splitOn '.'
  2 ≤ labels.length && labels.all isHostLabel

def trackingParams : List Text :=
  ["utm_source", "utm_medium", "utm_campaign", "utm_term", "utm_content", "utm_id", "gclid",
    "fbclid", "mc_cid", "mc_eid", "igshid"].map String.toList

def defaultPorts : Dict Nat := [("http".toList, 80), ("https".toList, 443)]

def wwwPrefix : Text := "www.".toList

def normalizeUrl (value : Option Text) : Option Text :=
  (cleanText env value).map fun text =>
    let lowered := env.unicode.lower text
    let hasScheme := Text.containsSub "://".toList text
    if hasScheme && !(Text.startsWith "http://".toList lowered ||
        Text.startsWith "https://".toList lowered) then text
    else if !hasScheme && text.contains ':' && (Text.startsWith "mailto:".toList lowered ||
        Text.startsWith "tel:".toList lowered) then text
    else
      let candidate := if hasScheme then text else "https://".toList ++ text
      match urlsplit env.unicode env.isIPv6 candidate with
      | none => text
      | some parsed =>
          match parsed.hostname env.unicode, parsed.port with
          | some host, some port =>
              if !isHostname host then text
              else
                let host := Text.removePrefix wwwPrefix host
                let netloc :=
                  match port with
                  | some p =>
                      if some p ≠ defaultPorts.get parsed.scheme then
                        host ++ ':' :: Text.ofNat p
                      else host
                  | none => host
                let kept := sortParams ((parseQsl parsed.query).filter fun p =>
                  !trackingParams.contains (env.unicode.lower p.1))
                urlunsplit parsed.scheme netloc (Text.rstrip (· == '/') parsed.path)
                  (urlencode kept) []
          | _, _ => text

def extractDomain (url : Option Text) : Option Text :=
  url.bind fun u =>
    (urlsplit env.unicode env.isIPv6 u).bind fun parsed =>
      (parsed.hostname env.unicode).map fun host => Text.removePrefix wwwPrefix host

/-- The region numbers are read in: the configured one, or the record's own country code. -/
def phoneRegion (defaultRegion country : Option Text) : Option Text :=
  match defaultRegion, country with
  | none, some c => if c.length == 2 then some c else none
  | region, _ => region

def normalizeRecord (record : RawRecord) (defaultRegion : Option Text) : NormalizedLead :=
  let website := normalizeUrl env (record.field "website")
  let country := normalizeCountry env (record.field "country")
  { source := record.source
    collectedAt := record.collectedAt
    companyName := normalizeCompanyName env (record.field "company_name")
    contactName := normalizePersonName env (record.field "contact_name")
    website := website
    websiteDomain := extractDomain env website
    email := normalizeEmail env (record.field "email")
    phone := normalizePhone env (record.field "phone") (phoneRegion defaultRegion country)
    address := cleanText env (record.field "address")
    city := normalizeCity env (record.field "city")
    country := country
    extra := record.fields.filter fun p => !leadFields.contains p.1 }

end LeadPipe
