import Mathlib.Data.Char
import Mathlib.Data.List.Lex
import LeadPipe.Framework.Ranking
import LeadPipe.Domain.Models

/-!
# Merge policy

`app/deduplication/merge.py`: one lead out of the records that make it up.
-/

namespace LeadPipe

open Framework

/-- `SINGLE_FIELDS`: the fields that are chosen one by one. -/
inductive SingleField where
  | companyName
  | contactName
  | email
  | phone
  | address
  | city
  | country
  deriving DecidableEq, Repr

namespace SingleField

def all : List SingleField :=
  [.companyName, .contactName, .email, .phone, .address, .city, .country]

def get : SingleField → LeadPayload → Option Text
  | companyName, p => p.companyName
  | contactName, p => p.contactName
  | email, p => p.email
  | phone, p => p.phone
  | address, p => p.address
  | city, p => p.city
  | country, p => p.country

def name : SingleField → Text
  | companyName => "company_name".toList
  | contactName => "contact_name".toList
  | email => "email".toList
  | phone => "phone".toList
  | address => "address".toList
  | city => "city".toList
  | country => "country".toList

end SingleField

structure Candidate where
  lead : NormalizedLead
  origin : Text
  priority : Int
  deriving DecidableEq

structure MergedLead where
  lead : NormalizedLead
  origins : Dict Text
  deriving DecidableEq

def filled (p : LeadPayload) : Nat :=
  (SingleField.all.map fun f => f.get p).countP Option.isSome +
    [p.website, p.websiteDomain].countP Option.isSome

/-- Record ids are numeric strings, so they are padded before they are compared. -/
def originKey (origin : Text) : Nat × Text :=
  if origin.isDigit then (0, origin.zfill 20) else (1, origin)

abbrev Rank := Int ×ₗ Int ×ₗ Int ×ₗ Nat ×ₗ Text

/-- Highest priority, then most recent, then most complete, then oldest origin. -/
def rank (c : Candidate) : Rank :=
  toLex (-c.priority, toLex (-c.lead.collectedAt, toLex (-(filled c.lead.toLeadPayload : Int),
    toLex (originKey c.origin))))

def winner (f : LeadPayload → Option Text) (cs : List Candidate) : Option Candidate :=
  firstWith (fun c => f c.lead.toLeadPayload) cs

def winningValue (f : LeadPayload → Option Text) (cs : List Candidate) : Option Text :=
  (winner f cs).bind fun c => f c.lead.toLeadPayload

def mergedExtra (cs : List Candidate) : Dict (Option Text) :=
  cs.reverse.foldl (fun extra c => extra.update c.lead.extra) []

/-- The columns of a lead made from ranked candidates; both website columns come from the
candidate that wins the website. -/
def mergedPayload (cs : List Candidate) : LeadPayload where
  companyName := winningValue SingleField.companyName.get cs
  contactName := winningValue SingleField.contactName.get cs
  website := winningValue LeadPayload.website cs
  websiteDomain := (winner LeadPayload.website cs).bind fun c => c.lead.websiteDomain
  email := winningValue SingleField.email.get cs
  phone := winningValue SingleField.phone.get cs
  address := winningValue SingleField.address.get cs
  city := winningValue SingleField.city.get cs
  country := winningValue SingleField.country.get cs
  extra := mergedExtra cs

def mergedOrigins (cs : List Candidate) : Dict Text :=
  (SingleField.all.filterMap fun f => (winner f.get cs).map fun c => (f.name, c.origin)) ++
    match winner LeadPayload.website cs with
    | some c => [("website".toList, c.origin), ("website_domain".toList, c.origin)]
    | none => []

/-- `merge`; without candidates it raises `ValueError`, which is `none`. -/
def merge (candidates : List Candidate) : Option MergedLead :=
  let cs := ranked rank candidates
  match cs with
  | [] => none
  | top :: _ =>
      some
        { lead :=
            { toLeadPayload := mergedPayload cs
              source := top.lead.source
              collectedAt := (candidates.map fun c => c.lead.collectedAt).foldl max
                top.lead.collectedAt }
          origins := mergedOrigins cs }

theorem merge_eq_none {cs : List Candidate} : merge cs = none ↔ cs = [] := by
  unfold merge
  cases h : ranked rank cs with
  | nil => simpa using ranked_eq_nil.mp h
  | cons c rest =>
      have : cs ≠ [] := fun hnil => by simp [ranked_eq_nil.mpr hnil] at h
      simpa using this

theorem merge_some {cs : List Candidate} {merged : MergedLead} (h : merge cs = some merged) :
    ∃ top ∈ cs, merged =
      { lead :=
          { toLeadPayload := mergedPayload (ranked rank cs)
            source := top.lead.source
            collectedAt := (cs.map fun c => c.lead.collectedAt).foldl max top.lead.collectedAt }
        origins := mergedOrigins (ranked rank cs) } := by
  unfold merge at h
  cases hr : ranked rank cs with
  | nil => simp [hr] at h
  | cons top rest =>
      have htop : top ∈ ranked rank cs := by simp [hr]
      simp only [hr, Option.some.injEq] at h
      exact ⟨top, mem_ranked.mp htop, h.symm⟩

theorem merge_singleton (c : Candidate) : ∃ merged, merge [c] = some merged :=
  ⟨_, rfl⟩

end LeadPipe
