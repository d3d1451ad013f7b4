import LeadPipe.Python.Text

/-!
# Domain values

The value types of `app/domain`. A `NormalizedLead` is the payload a record stores plus where
and when it was collected; the payload is a structure of its own because the record key, the
stored record and the lead row all carry exactly these columns. Instants are microseconds.
-/

namespace LeadPipe

abbrev Instant := Int

structure SourceRef where
  name : Text
  url : Option Text
  deriving DecidableEq

/-- `raw`, the untouched payload of the source, is kept by no modelled function. -/
structure RawRecord where
  source : SourceRef
  fields : Dict (Option Text)
  collectedAt : Instant
  deriving DecidableEq

structure LeadPayload where
  companyName : Option Text
  contactName : Option Text
  website : Option Text
  websiteDomain : Option Text
  email : Option Text
  phone : Option Text
  address : Option Text
  city : Option Text
  country : Option Text
  extra : Dict (Option Text)
  deriving DecidableEq

structure NormalizedLead extends LeadPayload where
  source : SourceRef
  collectedAt : Instant
  deriving DecidableEq

/-- The exceptions of the program that are not the database's. -/
inductive PyError where
  | valueError
  | sourceError (message : Text)
  deriving DecidableEq

def leadFields : List Text :=
  ["company_name".toList, "contact_name".toList, "website".toList, "email".toList,
    "phone".toList, "address".toList, "city".toList, "country".toList]

def externalIdKey : Text := "external_id".toList

namespace RawRecord

/-- `record.fields.get(name)`: a missing field and a `None` field read the same. -/
def field (r : RawRecord) (name : String) : Option Text := (r.fields.get name.toList).join

end RawRecord

namespace LeadPayload

/-- `lead.extra.get("external_id")`, through `str` when it is there. -/
def externalId (p : LeadPayload) : Option Text := (p.extra.get externalIdKey).join

end LeadPayload

end LeadPipe
