import Mathlib.Data.List.DropRight
import Mathlib.Data.Finset.Card
import Mathlib.Data.Rat.Defs
import LeadPipe.Platform

/-!
# Fingerprints

`app/deduplication/fingerprint.py`: the comparable keys of a lead, and the trigram
similarity of two names as an exact fraction.
-/

namespace LeadPipe

variable (env : Platform)

def legalSuffixes : List Text :=
  ["oy", "oyj", "ab", "ky", "tmi", "as", "asa", "aps", "ou", "sia", "uab", "ltd", "limited",
    "plc", "llp", "inc", "llc", "corp", "corporation", "company", "co", "gmbh", "ag", "kg",
    "bv", "nv", "sa", "sas", "sarl", "srl", "spa", "sl"].map String.toList

def isSlugChar (c : Char) : Bool := ('a' ≤ c && c ≤ 'z') || ('0' ≤ c && c ≤ '9')

/-- The nonempty parts of `[^a-z0-9]+` splitting the casefolded text. -/
def words (value : Text) : List Text :=
  ((env.unicode.casefold value).splitOnP fun c => !isSlugChar c).filter fun w => !w.isEmpty

def companySlug (value : Option Text) : Option Text :=
  value.bind fun v =>
    Text.orNone (Text.join [' '] ((words env v).rdropWhile fun w => legalSuffixes.contains w))

def wordTrigrams (word : Text) : List Text :=
  let padded := [' ', ' '] ++ word ++ [' ']
  (List.range (padded.length - 2)).map fun i => (padded.drop i).take 3

def trigrams (value : Text) : Finset Text := ((words env value).flatMap wordTrigrams).toFinset

def similarity (left right : Text) : ℚ :=
  let a := trigrams env left
  let b := trigrams env right
  if a = ∅ ∨ b = ∅ then 0 else (a ∩ b).card / (a ∪ b).card

structure Fingerprints where
  email : Option Text
  domain : Option Text
  phone : Option Text
  nameSlug : Option Text
  location : Option Text
  externalId : Option Text
  deriving DecidableEq

/-- `_location_key`, and the location of `fingerprints`: the parts that are there, casefolded
and joined. -/
def locationKey (city country : Option Text) : Option Text :=
  match [city, country].filterMap fun part => if Text.truthy part then part else none with
  | [] => none
  | parts => some (Text.join ['|'] (parts.map env.unicode.casefold))

def usableEmail (email : Option Text) : Option Text :=
  email.filter fun e => !e.isEmpty && e.contains '@'

def usablePhone (phone : Option Text) : Option Text :=
  phone.filter fun p => !p.isEmpty && Text.startsWith ['+'] p

def fingerprints (lead : NormalizedLead) : Fingerprints where
  email := usableEmail lead.email
  domain := lead.websiteDomain
  phone := usablePhone lead.phone
  nameSlug := companySlug env lead.companyName
  location := locationKey env lead.city lead.country
  externalId := lead.externalId

end LeadPipe
