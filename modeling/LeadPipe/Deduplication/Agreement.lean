import Mathlib.Algebra.Order.Field.Basic
import Mathlib.Algebra.Order.Ring.Rat
import Mathlib.Tactic.NormNum
import LeadPipe.Deduplication.Matcher
import LeadPipe.Deduplication.Precedence
import LeadPipe.Deduplication.Slugs

/-!
# What agreement does to a match

A lead takes over some of the fields the other one is matched by. `match` still has a result,
and one at least as certain, except that the identifier of the source is looked at last: a pair
it had found with certainty can now be found by a less certain rule before it.
-/

namespace LeadPipe

/-- The fields a lead is matched by. `website` goes with its domain, `city` with `country`. -/
inductive MatchField where
  | email
  | website
  | phone
  | companyName
  | location
  | externalId
  deriving DecidableEq, Repr

/-- The additional fields with `external_id` as in `extra`, missing when it is missing there. -/
def adoptedExtra (extra kept : Dict (Option Text)) : Dict (Option Text) :=
  match extra.get externalIdKey with
  | some value => kept.set externalIdKey value
  | none => kept.filter fun p => p.1 != externalIdKey

/-- `right` with `left`'s own values in the chosen fields. -/
def adopting (chosen : MatchField → Bool) (left right : NormalizedLead) : NormalizedLead :=
  { right with
    email := if chosen .email then left.email else right.email
    website := if chosen .website then left.website else right.website
    websiteDomain := if chosen .website then left.websiteDomain else right.websiteDomain
    phone := if chosen .phone then left.phone else right.phone
    companyName := if chosen .companyName then left.companyName else right.companyName
    city := if chosen .location then left.city else right.city
    country := if chosen .location then left.country else right.country
    extra := if chosen .externalId then adoptedExtra left.extra right.extra else right.extra }

theorem get_adoptedExtra (extra kept : Dict (Option Text)) :
    (adoptedExtra extra kept).get externalIdKey = extra.get externalIdKey := by
  unfold adoptedExtra
  cases hget : extra.get externalIdKey with
  | some value => rw [Dict.get_set, if_pos rfl]
  | none =>
      rw [Dict.get_eq_none, List.mem_map]
      rintro ⟨p, hp, hkey⟩
      have hne := (List.mem_filter.mp hp).2
      simp [hkey] at hne

section Keys

variable (env : Platform) (chosen : MatchField → Bool) (left right : NormalizedLead)

theorem adopting_externalId :
    (adopting chosen left right).externalId =
      if chosen .externalId then left.externalId else right.externalId := by
  unfold adopting LeadPayload.externalId
  by_cases h : chosen .externalId = true
  · simp only [h, if_true, get_adoptedExtra]
  · simp only [h, Bool.false_eq_true, if_false]

theorem adopting_nameSlug :
    (fingerprints env (adopting chosen left right)).nameSlug =
      if chosen .companyName then (fingerprints env left).nameSlug
      else (fingerprints env right).nameSlug :=
  apply_ite (companySlug env) _ _ _

theorem adopting_location :
    (fingerprints env (adopting chosen left right)).location =
      if chosen .location then (fingerprints env left).location
      else (fingerprints env right).location := by
  unfold fingerprints adopting
  by_cases h : chosen .location = true
  · simp only [h, if_true]
  · simp only [h, Bool.false_eq_true, if_false]

end Keys

theorem equalKey_adopted {a b : Option Text} (h : equalKey a b = true) (take : Bool) :
    equalKey a (if take then a else b) = true := by
  obtain ⟨key, rfl, rfl⟩ := equalKey_iff.mp h
  cases take <;> simp [equalKey]

variable {env : Platform}

theorem matchNameLocation_eq_some {a b : Fingerprints} {policy : MatchPolicy}
    {result : MatchResult} :
    matchNameLocation env a b policy = some result ↔
      ∃ left right, a.nameSlug = some left ∧ b.nameSlug = some right ∧
        equalKey a.location b.location = true ∧
        policy.nameSimilarityThreshold ≤ similarity env left right ∧
        result = matchResult .nameLocation
          (min (similarity env left right) policy.nameConfidenceCap) policy := by
  unfold matchNameLocation
  cases ha : a.nameSlug with
  | none => simp
  | some left =>
      cases hb : b.nameSlug with
      | none => simp
      | some right =>
          by_cases hloc : equalKey a.location b.location = true
          · by_cases hscore : similarity env left right < policy.nameSimilarityThreshold
            · simp [hloc, hscore, hscore.not_ge]
            · simp [hloc, hscore, not_lt.mp hscore, eq_comm]
          · simp [hloc]

theorem matchNameLocation_adopting (chosen : MatchField → Bool) {left right : NormalizedLead}
    {result : MatchResult}
    (h : matchNameLocation env (fingerprints env left) (fingerprints env right) defaultPolicy =
      some result) :
    ∃ result', matchNameLocation env (fingerprints env left)
        (fingerprints env (adopting chosen left right)) defaultPolicy = some result' ∧
      result.confidence ≤ result'.confidence := by
  obtain ⟨name, other, hname, hother, hloc, hscore, rfl⟩ := matchNameLocation_eq_some.mp h
  have hself : similarity env name name = 1 := similarity_self (slug_trigrams_ne_empty env hname)
  have hle : similarity env name other ≤ similarity env name name :=
    (similarity_le_one name other).trans hself.ge
  have hloc' : equalKey (fingerprints env left).location
      (fingerprints env (adopting chosen left right)).location = true := by
    rw [adopting_location]
    exact equalKey_adopted hloc _
  have hslug := adopting_nameSlug env chosen left right
  by_cases htake : chosen .companyName = true
  · rw [if_pos htake, hname] at hslug
    exact ⟨_, matchNameLocation_eq_some.mpr
      ⟨name, name, hname, hslug, hloc', hscore.trans hle, rfl⟩, min_le_min_right _ hle⟩
  · rw [if_neg htake, hother] at hslug
    exact ⟨_, matchNameLocation_eq_some.mpr
      ⟨name, other, hname, hslug, hloc', hscore, rfl⟩, le_rfl⟩

theorem cap_le_threshold : defaultPolicy.nameConfidenceCap ≤ defaultPolicy.autoMergeThreshold := by
  norm_num [defaultPolicy]

theorem threshold_le_phone : defaultPolicy.autoMergeThreshold ≤ exactConfidence .phone := by
  norm_num [defaultPolicy, exactConfidence]

theorem phone_le_website : exactConfidence .phone ≤ exactConfidence .website := by
  norm_num [exactConfidence]

theorem website_le_email : exactConfidence .website ≤ exactConfidence .email := by
  norm_num [exactConfidence]

theorem cap_le_phone : defaultPolicy.nameConfidenceCap ≤ exactConfidence .phone :=
  cap_le_threshold.trans threshold_le_phone

/-! ## The first rule that matches

A rule that applies leaves the result to itself or to a rule before it. -/

section FirstRule

variable {left right : NormalizedLead} {policy : MatchPolicy}

theorem matchLeads_of_email (h : equalKey (usableEmail left.email) (usableEmail right.email) = true) :
    matchLeads env left right policy =
      some (matchResult .email (exactConfidence .email) policy) :=
  if_pos h

variable (env policy) in
theorem matchLeads_of_website (h : equalKey left.websiteDomain right.websiteDomain = true) :
    ∃ rule, exactConfidence .website ≤ exactConfidence rule ∧
      matchLeads env left right policy =
        some (matchResult rule (exactConfidence rule) policy) := by
  by_cases hemail : equalKey (usableEmail left.email) (usableEmail right.email) = true
  · exact ⟨.email, website_le_email, matchLeads_of_email hemail⟩
  · exact ⟨.website, le_rfl, (if_neg hemail).trans (if_pos h)⟩

variable (env policy) in
theorem matchLeads_of_phone (h : equalKey (usablePhone left.phone) (usablePhone right.phone) = true) :
    ∃ rule, exactConfidence .phone ≤ exactConfidence rule ∧
      matchLeads env left right policy =
        some (matchResult rule (exactConfidence rule) policy) := by
  by_cases hemail : equalKey (usableEmail left.email) (usableEmail right.email) = true
  · exact ⟨.email, phone_le_website.trans website_le_email, matchLeads_of_email hemail⟩
  by_cases hsite : equalKey left.websiteDomain right.websiteDomain = true
  · obtain ⟨rule, hrule, hmatch⟩ := matchLeads_of_website env policy hsite
    exact ⟨rule, phone_le_website.trans hrule, hmatch⟩
  · exact ⟨.phone, le_rfl, (if_neg hemail).trans ((if_neg hsite).trans (if_pos h))⟩

theorem matchLeads_of_no_key
    (hemail : equalKey (usableEmail left.email) (usableEmail right.email) ≠ true)
    (hsite : equalKey left.websiteDomain right.websiteDomain ≠ true)
    (hphone : equalKey (usablePhone left.phone) (usablePhone right.phone) ≠ true) :
    matchLeads env left right policy =
      (matchNameLocation env (fingerprints env left) (fingerprints env right) policy).or
        (if left.source.name = right.source.name ∧
            equalKey left.externalId right.externalId then
          some (matchResult .externalId (exactConfidence .externalId) policy)
        else none) := by
  refine (if_neg hemail).trans ((if_neg hsite).trans ((if_neg hphone).trans ?_))
  cases matchNameLocation env (fingerprints env left) (fingerprints env right) policy with
  | none => rfl
  | some named => rfl

end FirstRule

/-- The name rule yields to the keys only, and they are all more certain than its cap. -/
theorem matchLeads_of_name {left right : NormalizedLead} {named : MatchResult}
    (h : matchNameLocation env (fingerprints env left) (fingerprints env right) defaultPolicy =
      some named) :
    ∃ result, matchLeads env left right = some result ∧
      named.confidence ≤ result.confidence := by
  obtain ⟨score, rfl⟩ := matchNameLocation_some h
  have hcap : min score defaultPolicy.nameConfidenceCap ≤ exactConfidence .phone :=
    (min_le_right _ _).trans cap_le_phone
  by_cases hphone : equalKey (usablePhone left.phone) (usablePhone right.phone) = true
  · obtain ⟨rule, hrule, hmatch⟩ := matchLeads_of_phone env defaultPolicy hphone
    exact ⟨_, hmatch, hcap.trans hrule⟩
  by_cases hsite : equalKey left.websiteDomain right.websiteDomain = true
  · obtain ⟨rule, hrule, hmatch⟩ := matchLeads_of_website env defaultPolicy hsite
    exact ⟨_, hmatch, hcap.trans (phone_le_website.trans hrule)⟩
  by_cases hemail : equalKey (usableEmail left.email) (usableEmail right.email) = true
  · have hbelow := phone_le_website.trans website_le_email
    exact ⟨_, matchLeads_of_email hemail, hcap.trans hbelow⟩
  · rw [matchLeads_of_no_key hemail hsite hphone, h]
    exact ⟨_, rfl, le_rfl⟩

variable (env) in
theorem matchLeads_of_externalId {left right : NormalizedLead}
    (hsource : left.source.name = right.source.name)
    (h : equalKey left.externalId right.externalId = true) :
    ∃ result, matchLeads env left right = some result := by
  by_cases hemail : equalKey (usableEmail left.email) (usableEmail right.email) = true
  · exact ⟨_, matchLeads_of_email hemail⟩
  by_cases hsite : equalKey left.websiteDomain right.websiteDomain = true
  · obtain ⟨rule, -, hmatch⟩ := matchLeads_of_website env defaultPolicy hsite
    exact ⟨_, hmatch⟩
  by_cases hphone : equalKey (usablePhone left.phone) (usablePhone right.phone) = true
  · obtain ⟨rule, -, hmatch⟩ := matchLeads_of_phone env defaultPolicy hphone
    exact ⟨_, hmatch⟩
  rw [matchLeads_of_no_key hemail hsite hphone, if_pos ⟨hsource, h⟩]
  cases matchNameLocation env (fingerprints env left) (fingerprints env right) defaultPolicy with
  | none => exact ⟨_, rfl⟩
  | some named => exact ⟨named, rfl⟩

theorem matchLeads_confidence_le {left right : NormalizedLead} {result : MatchResult}
    (h : matchLeads env left right = some result) : result.confidence ≤ 1 := by
  obtain ⟨rfl, -⟩ | ⟨rfl, -⟩ | ⟨rfl, -⟩ | ⟨score, rfl⟩ | ⟨rfl, -⟩ := matchLeads_cases h
  · exact le_rfl
  · exact website_le_email
  · exact phone_le_website.trans website_le_email
  · exact (min_le_right _ _).trans (cap_le_phone.trans (phone_le_website.trans website_le_email))
  · exact le_rfl

section Agreeing

variable {chosen : MatchField → Bool} {left right : NormalizedLead} {result : MatchResult}

variable (chosen) in
theorem matchLeads_adopting_of_rule (h : matchLeads env left right = some result)
    (hrule : result.rule ≠ .externalId) :
    ∃ result', matchLeads env left (adopting chosen left right) = some result' ∧
      result.confidence ≤ result'.confidence := by
  obtain ⟨rfl, hkey⟩ | ⟨rfl, hkey⟩ | ⟨rfl, hkey⟩ | hname | ⟨rfl, -⟩ := matchLeads_found h
  · have hkey' : equalKey (usableEmail left.email)
        (usableEmail (adopting chosen left right).email) = true := by
      have hsame := equalKey_adopted hkey (chosen .email)
      rwa [← apply_ite usableEmail] at hsame
    exact ⟨_, matchLeads_of_email hkey', le_rfl⟩
  · have hkey' : equalKey left.websiteDomain (adopting chosen left right).websiteDomain = true :=
      equalKey_adopted hkey (chosen .website)
    obtain ⟨rule, hle, hmatch⟩ := matchLeads_of_website env defaultPolicy hkey'
    exact ⟨_, hmatch, hle⟩
  · have hkey' : equalKey (usablePhone left.phone)
        (usablePhone (adopting chosen left right).phone) = true := by
      have hsame := equalKey_adopted hkey (chosen .phone)
      rwa [← apply_ite usablePhone] at hsame
    obtain ⟨rule, hle, hmatch⟩ := matchLeads_of_phone env defaultPolicy hkey'
    exact ⟨_, hmatch, hle⟩
  · obtain ⟨named, hnamed, hle⟩ := matchNameLocation_adopting chosen hname
    obtain ⟨result', hmatch, hle'⟩ := matchLeads_of_name hnamed
    exact ⟨result', hmatch, hle.trans hle'⟩
  · exact absurd rfl hrule

variable (chosen) in
theorem matchLeads_adopting_of_externalId (h : matchLeads env left right = some result)
    (hrule : result.rule = .externalId) :
    ∃ result', matchLeads env left (adopting chosen left right) = some result' ∧
      (result.confidence ≤ result'.confidence ∨
        result'.rule = .website ∨ result'.rule = .phone ∨ result'.rule = .nameLocation) := by
  obtain ⟨hsource, hkey⟩ : left.source.name = right.source.name ∧
      equalKey left.externalId right.externalId = true := by
    obtain ⟨rfl, -⟩ | ⟨rfl, -⟩ | ⟨rfl, -⟩ | ⟨score, rfl⟩ | ⟨-, hfound⟩ := matchLeads_cases h
    all_goals first | exact hfound | cases hrule
  have hkey' : equalKey left.externalId (adopting chosen left right).externalId = true := by
    rw [adopting_externalId]
    exact equalKey_adopted hkey _
  have hsource' : left.source.name = (adopting chosen left right).source.name := hsource
  obtain ⟨result', hmatch⟩ := matchLeads_of_externalId env hsource' hkey'
  have hone : result.confidence ≤ 1 := matchLeads_confidence_le h
  refine ⟨result', hmatch, ?_⟩
  obtain ⟨rfl, -⟩ | ⟨rfl, -⟩ | ⟨rfl, -⟩ | ⟨score, rfl⟩ | ⟨rfl, -⟩ := matchLeads_cases hmatch
  · exact .inl hone
  · exact .inr (.inl rfl)
  · exact .inr (.inr (.inl rfl))
  · exact .inr (.inr (.inr rfl))
  · exact .inl hone

end Agreeing

/-- Taking over fields of the other lead keeps the match. It is as certain as before and merges
by itself as before, but for a pair found by its identifier, which is looked at last: a rule
before it can now find the pair, and the name rule never merges by itself. -/
theorem agreement_keeps_match (env : Platform) (chosen : MatchField → Bool)
    (left right : NormalizedLead) (result : MatchResult)
    (h : matchLeads env left right = some result) :
    ∃ result', matchLeads env left (adopting chosen left right) = some result' ∧
      (result.confidence ≤ result'.confidence ∨
        result.rule = .externalId ∧
          (result'.rule = .website ∨ result'.rule = .phone ∨ result'.rule = .nameLocation)) ∧
      (result.autoMerge = true →
        result'.autoMerge = true ∨
          result.rule = .externalId ∧ result'.rule = .nameLocation) := by
  by_cases hrule : result.rule = .externalId
  · obtain ⟨result', hmatch, hresult⟩ :=
      matchLeads_adopting_of_externalId chosen h hrule
    refine ⟨result', hmatch, hresult.imp_right fun hearlier => ⟨hrule, hearlier⟩, fun _ => ?_⟩
    have hcertain : defaultPolicy.autoMergeThreshold ≤ exactConfidence .email :=
      threshold_le_phone.trans (phone_le_website.trans website_le_email)
    -- of all the rules only the capped one stays below the threshold
    obtain ⟨rfl, -⟩ | ⟨rfl, -⟩ | ⟨rfl, -⟩ | ⟨score, rfl⟩ | ⟨rfl, -⟩ := matchLeads_cases hmatch
    · exact .inl (decide_eq_true hcertain)
    · exact .inl (decide_eq_true (threshold_le_phone.trans phone_le_website))
    · exact .inl (decide_eq_true threshold_le_phone)
    · exact .inr ⟨hrule, rfl⟩
    · exact .inl (decide_eq_true hcertain)
  · obtain ⟨result', hmatch, hle⟩ := matchLeads_adopting_of_rule chosen h hrule
    refine ⟨result', hmatch, .inl hle, fun hmerge => .inl ?_⟩
    rw [matchLeads_autoMerge h, decide_eq_true_eq] at hmerge
    rw [matchLeads_autoMerge hmatch, decide_eq_true_eq]
    exact hmerge.trans hle

/-- The entry of a register: its number there, and a name and a place or not. -/
def registered (companyName city : Option Text) : NormalizedLead where
  companyName := companyName
  contactName := none
  website := none
  websiteDomain := none
  email := none
  phone := none
  address := none
  city := city
  country := none
  extra := [(externalIdKey, some "A-1".toList)]
  source := ⟨"register".toList, none⟩
  collectedAt := 1

theorem agreement_keeps_match_registered :
    ∃ result', matchLeads .ascii (registered (some "Acme".toList) none)
        (adopting (fun _ => true) (registered (some "Acme".toList) none)
          (registered (some "Other".toList) none)) = some result' ∧
      (1 ≤ result'.confidence ∨ MatchRule.externalId = .externalId ∧
          (result'.rule = .website ∨ result'.rule = .phone ∨ result'.rule = .nameLocation)) ∧
      (true = true → result'.autoMerge = true ∨
          MatchRule.externalId = .externalId ∧ result'.rule = .nameLocation) :=
  agreement_keeps_match .ascii (fun _ => true) (registered (some "Acme".toList) none)
    (registered (some "Other".toList) none) ⟨.externalId, 1, true⟩ (by decide +kernel)

/-- Two names for one entry merge, until they agree on the name and the place. -/
theorem agreement_hides_identifier :
    ¬∀ (env : Platform) (chosen : MatchField → Bool) (left right : NormalizedLead)
      (result : MatchResult), matchLeads env left right = some result →
        ∃ result', matchLeads env left (adopting chosen left right) = some result' ∧
          result.confidence ≤ result'.confidence ∧
          (result.autoMerge = true → result'.autoMerge = true) := by
  intro h
  obtain ⟨result', hmatch, hle, -⟩ := h .ascii (fun _ => true)
    (registered (some "Acme".toList) (some "Oulu".toList)) (registered (some "Other".toList) none)
    ⟨.externalId, 1, true⟩ (by decide +kernel)
  have hname : matchLeads .ascii (registered (some "Acme".toList) (some "Oulu".toList))
      (adopting (fun _ => true) (registered (some "Acme".toList) (some "Oulu".toList))
        (registered (some "Other".toList) none)) = some ⟨.nameLocation, 8 / 10, false⟩ := by
    decide +kernel
  obtain rfl := Option.some.inj (hmatch.symm.trans hname)
  exact absurd hle (by norm_num)

end LeadPipe
