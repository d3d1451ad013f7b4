import Mathlib.Data.Rat.Init
import LeadPipe.Domain.Models

/-!
# The platform

What the pipeline calls that is not its own code: the Unicode database, the `phonenumbers`
and `email_validator` packages, `ipaddress`, the digest that keys a record without an
identifier, and the `similarity` function of `pg_trgm`.
-/

namespace LeadPipe

/-- `parse` returns `none` for `NumberParseException`. -/
structure Phonenumbers where
  Number : Type
  parse : Text → Option Text → Option Number
  isValidNumber : Number → Bool
  formatE164 : Number → Text

/-- `validEmail` is `validate_email` returning instead of raising `EmailNotValidError`, and
`digest` the first 64 hexadecimal digits of the SHA-256 of a payload's sorted JSON. -/
structure Platform where
  unicode : Unicode
  phonenumbers : Phonenumbers
  validEmail : Text → Bool
  isIPv6 : Text → Bool
  digest : LeadPayload → Text
  similarity : Text → Text → ℚ

/-- A platform to compute with: ASCII text, numbers written in E.164 already, and a digest that
spells the payload out. -/
def Platform.ascii : Platform where
  unicode := .ascii
  phonenumbers :=
    { Number := Text
      parse := fun text _ => if text.head? = some '+' then some text else none
      isValidNumber := fun _ => true
      formatE164 := id }
  validEmail text := text.contains '@'
  isIPv6 _ := false
  digest p :=
    [p.companyName, p.contactName, p.website, p.email, p.phone, p.address, p.city,
      p.country].flatMap fun field => '|' :: field.getD []
  similarity a b := if a = b then 1 else 0

end LeadPipe
