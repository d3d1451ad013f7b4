import Mathlib.Algebra.Order.Ring.Unbundled.Rat
import LeadPipe.Deduplication.Fingerprint

/-!
# Match rules

`app/deduplication/matcher.py`. Confidences and thresholds are exact fractions.
-/

namespace LeadPipe

variable (env : Platform)

inductive MatchRule where
  | email
  | website
  | phone
  | nameLocation
  | externalId
  deriving DecidableEq, Repr

structure MatchPolicy where
  nameSimilarityThreshold : ℚ := 7 / 10
  nameConfidenceCap : ℚ := 8 / 10
  autoMergeThreshold : ℚ := 85 / 100

def defaultPolicy : MatchPolicy := {}

/-- `EXACT_CONFIDENCE`; the name rule has no entry, its confidence is the capped score. -/
def exactConfidence : MatchRule → ℚ
  | .email => 1
  | .website => 95 / 100
  | .phone => 9 / 10
  | .externalId => 1
  | .nameLocation => 0

structure MatchResult where
  rule : MatchRule
  confidence : ℚ
  autoMerge : Bool
  deriving DecidableEq

def matchResult (rule : MatchRule) (confidence : ℚ) (policy : MatchPolicy) : MatchResult :=
  ⟨rule, confidence, policy.autoMergeThreshold ≤ confidence⟩

/-- `_equal`: both keys are there and they are the same. -/
def equalKey (a b : Option Text) : Bool := a.isSome && a == b

def matchNameLocation (a b : Fingerprints) (policy : MatchPolicy) : Option MatchResult :=
  match a.nameSlug, b.nameSlug with
  | some left, some right =>
      if equalKey a.location b.location then
        let score := similarity env left right
        if score < policy.nameSimilarityThreshold then none
        else some (matchResult .nameLocation (min score policy.nameConfidenceCap) policy)
      else none
  | _, _ => none

def matchLeads (left right : NormalizedLead) (policy : MatchPolicy := defaultPolicy) :
    Option MatchResult :=
  let a := fingerprints env left
  let b := fingerprints env right
  if equalKey a.email b.email then
    some (matchResult .email (exactConfidence .email) policy)
  else if equalKey a.domain b.domain then
    some (matchResult .website (exactConfidence .website) policy)
  else if equalKey a.phone b.phone then
    some (matchResult .phone (exactConfidence .phone) policy)
  else
    match matchNameLocation env a b policy with
    | some result => some result
    | none =>
        if left.source.name = right.source.name ∧ equalKey a.externalId b.externalId then
          some (matchResult .externalId (exactConfidence .externalId) policy)
        else none

variable {env}

theorem matchNameLocation_some {a b : Fingerprints} {policy : MatchPolicy} {result : MatchResult}
    (h : matchNameLocation env a b policy = some result) :
    ∃ score, result = matchResult .nameLocation (min score policy.nameConfidenceCap) policy := by
  unfold matchNameLocation at h
  split at h
  · split at h
    · dsimp only at h
      split at h
      · cases h
      · exact ⟨_, (Option.some.inj h).symm⟩
    · cases h
  · cases h

theorem matchLeads_found {left right : NormalizedLead} {policy : MatchPolicy}
    {result : MatchResult} (h : matchLeads env left right policy = some result) :
    (result = matchResult .email (exactConfidence .email) policy ∧
        equalKey (usableEmail left.email) (usableEmail right.email) = true) ∨
      (result = matchResult .website (exactConfidence .website) policy ∧
        equalKey left.websiteDomain right.websiteDomain = true) ∨
      (result = matchResult .phone (exactConfidence .phone) policy ∧
        equalKey (usablePhone left.phone) (usablePhone right.phone) = true) ∨
      matchNameLocation env (fingerprints env left) (fingerprints env right) policy =
        some result ∨
      (result = matchResult .externalId (exactConfidence .externalId) policy ∧
        left.source.name = right.source.name ∧
          equalKey left.externalId right.externalId = true) := by
  unfold matchLeads at h
  dsimp only at h
  split at h
  · rename_i hemail
    exact .inl ⟨(Option.some.inj h).symm, hemail⟩
  split at h
  · rename_i hdomain
    exact .inr (.inl ⟨(Option.some.inj h).symm, hdomain⟩)
  split at h
  · rename_i hphone
    exact .inr (.inr (.inl ⟨(Option.some.inj h).symm, hphone⟩))
  split at h
  · rename_i named hname
    exact .inr (.inr (.inr (.inl (hname.trans h))))
  split at h
  · rename_i hexternal
    exact .inr (.inr (.inr (.inr ⟨(Option.some.inj h).symm, hexternal⟩)))
  · cases h

theorem matchLeads_cases {left right : NormalizedLead} {policy : MatchPolicy}
    {result : MatchResult} (h : matchLeads env left right policy = some result) :
    (result = matchResult .email (exactConfidence .email) policy ∧
        equalKey (usableEmail left.email) (usableEmail right.email) = true) ∨
      (result = matchResult .website (exactConfidence .website) policy ∧
        equalKey left.websiteDomain right.websiteDomain = true) ∨
      (result = matchResult .phone (exactConfidence .phone) policy ∧
        equalKey (usablePhone left.phone) (usablePhone right.phone) = true) ∨
      (∃ score, result =
        matchResult .nameLocation (min score policy.nameConfidenceCap) policy) ∨
      (result = matchResult .externalId (exactConfidence .externalId) policy ∧
        left.source.name = right.source.name ∧
          equalKey left.externalId right.externalId = true) :=
  (matchLeads_found h).imp_right (.imp_right (.imp_right (.imp_left matchNameLocation_some)))

/-- A result merges by itself exactly from the threshold on. -/
theorem matchLeads_autoMerge {left right : NormalizedLead} {policy : MatchPolicy}
    {result : MatchResult} (h : matchLeads env left right policy = some result) :
    result.autoMerge = decide (policy.autoMergeThreshold ≤ result.confidence) := by
  obtain ⟨rfl, -⟩ | ⟨rfl, -⟩ | ⟨rfl, -⟩ | ⟨score, rfl⟩ | ⟨rfl, -⟩ := matchLeads_cases h
  all_goals rfl

theorem equalKey_iff {a b : Option Text} :
    equalKey a b = true ↔ ∃ key, a = some key ∧ b = some key := by
  cases a with
  | none => simp [equalKey]
  | some key =>
      have hkey : equalKey (some key) b = true ↔ some key = b := by simp [equalKey]
      simp [hkey, eq_comm]

end LeadPipe
