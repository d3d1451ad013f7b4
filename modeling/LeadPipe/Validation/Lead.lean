import LeadPipe.Normalization.Fields

/-!
# Validation

`app/validation`. Every field is graded on its own and the grades are rolled up into one
status. Parsing a web address can raise `ValueError`, and the validator does not catch it.
-/

namespace LeadPipe

open Urllib

inductive ValidationStatus where
  | valid
  | invalid
  | unknown
  deriving DecidableEq, Repr

structure FieldValidation where
  status : ValidationStatus
  reason : Option Text
  deriving DecidableEq

namespace FieldValidation

def isInvalid (f : FieldValidation) : Bool := f.status = .invalid

def valid : FieldValidation := ⟨.valid, none⟩

def unknown : FieldValidation := ⟨.unknown, some "missing".toList⟩

def invalid (reason : String) : FieldValidation := ⟨.invalid, some reason.toList⟩

end FieldValidation

structure LeadValidation where
  status : ValidationStatus
  fields : Dict FieldValidation
  deriving DecidableEq

variable (env : Platform)

def validateCompanyName (value : Option Text) : FieldValidation :=
  match value with
  | none => .invalid "missing"
  | some _ => .valid

def validateEmailField (value : Option Text) : FieldValidation :=
  match value with
  | none => .unknown
  | some v => if env.validEmail v then .valid else .invalid "syntax"

def validateUrlField (value : Option Text) : Except PyError FieldValidation :=
  match value with
  | none => .ok .unknown
  | some v =>
      match urlsplit env.unicode env.isIPv6 v with
      | none => .error .valueError
      | some parsed =>
          if !(parsed.scheme == "http".toList || parsed.scheme == "https".toList) then
            .ok (.invalid "scheme")
          else
            match parsed.hostname env.unicode with
            | some host => .ok (if isHostname host then .valid else .invalid "syntax")
            | none => .ok (.invalid "syntax")

def validatePhoneField (value : Option Text) : FieldValidation :=
  match value with
  | none => .unknown
  | some v =>
      match env.phonenumbers.parse v none with
      | none => .invalid "syntax"
      | some parsed =>
          if env.phonenumbers.isValidNumber parsed then .valid else .invalid "syntax"

def contactFields : List Text := ["email".toList, "website".toList, "phone".toList]

def metadataFields : List Text := ["source_url".toList]

def rollup (fields : Dict FieldValidation) : ValidationStatus :=
  let graded : Dict FieldValidation := fields.filter fun p => !metadataFields.contains p.1
  if graded.any fun p => p.2.isInvalid then .invalid
  else if contactFields.all fun name => (graded.get name).any (·.status = .unknown) then
    .unknown
  else .valid

def validateLead (lead : NormalizedLead) : Except PyError LeadValidation := do
  let website ← validateUrlField env lead.website
  let sourceUrl ← validateUrlField env lead.source.url
  let fields : Dict FieldValidation :=
    [("company_name".toList, validateCompanyName lead.companyName),
      ("email".toList, validateEmailField env lead.email),
      ("website".toList, website),
      ("phone".toList, validatePhoneField env lead.phone),
      ("source_url".toList, sourceUrl)]
  return { status := rollup fields, fields := fields }

end LeadPipe
