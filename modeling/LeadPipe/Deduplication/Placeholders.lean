import LeadPipe.Deduplication.Matcher
import LeadPipe.Normalization.Fields
import LeadPipe.Validation.Websites

/-!
# Matches on values the validator refuses

A website or a number that cannot be used is kept verbatim, and the fingerprints take it up
again when it still shows a host or a plus sign. Whether both leads of a match have the matched
field graded valid is decided by the texts of the two records.
-/

namespace LeadPipe

open Urllib

/-- The E.164 form of a valid number parses as a valid number. -/
def Phonenumbers.Reparses (lib : Phonenumbers) : Prop :=
  ∀ n, lib.isValidNumber n = true →
    ∃ m, lib.parse (lib.formatE164 n) none = some m ∧ lib.isValidNumber m = true

/-- Text without digits is no number. -/
def Phonenumbers.NeedsDigits (lib : Phonenumbers) : Prop :=
  ∀ text region, (∀ c ∈ text, c.toNat < 128 ∧ c.isDigit = false) → lib.parse text region = none

variable (env : Platform)

/-- `validate_lead` returns, and with this field valid. -/
def GradedValid (lead : NormalizedLead) (field : Text) : Prop :=
  ∃ validation, validateLead env lead = .ok validation ∧
    validation.fields.get field = some FieldValidation.valid

def splits (value : Option Text) : Bool :=
  value.all fun v => (urlsplit env.unicode env.isIPv6 v).isSome

/-- The text is a valid number, for the region of the record or on its own. -/
def dials (region : Option Text) (text : Text) : Bool :=
  (env.phonenumbers.parse text region).any env.phonenumbers.isValidNumber ||
    (env.phonenumbers.parse text none).any env.phonenumbers.isValidNumber

def usableSite (record : RawRecord) : Bool :=
  splits env record.source.url && (cleanText env (record.field "website")).any (showsSite env)

/-- A website that cannot be split leaves the number ungraded, too. -/
def usableNumber (record : RawRecord) (region : Option Text) : Bool :=
  splits env record.source.url && splits env (cleanText env (record.field "website")) &&
    (cleanText env (record.field "phone")).any
      (dials env (phoneRegion region (normalizeCountry env (record.field "country"))))

variable {env}

theorem validateUrlField_splits (value : Option Text) :
    (∃ grade, validateUrlField env value = .ok grade) ↔ splits env value = true := by
  cases value with
  | none => simp [validateUrlField, splits]
  | some v =>
      unfold validateUrlField splits
      cases hsplit : urlsplit env.unicode env.isIPv6 v with
      | none => simp [hsplit]
      | some parsed =>
          simp only [Option.all_some, hsplit, Option.isSome_some, iff_true]
          split
          · exact ⟨_, rfl⟩
          · split <;> exact ⟨_, rfl⟩

theorem validateLead_grades {lead : NormalizedLead} {website source : FieldValidation}
    (hsite : validateUrlField env lead.website = .ok website)
    (hsource : validateUrlField env lead.source.url = .ok source) :
    ∃ validation, validateLead env lead = .ok validation ∧
      validation.fields.get "website".toList = some website ∧
      validation.fields.get "phone".toList = some (validatePhoneField env lead.phone) := by
  let fields : Dict FieldValidation :=
    [("company_name".toList, validateCompanyName lead.companyName),
      ("email".toList, validateEmailField env lead.email), ("website".toList, website),
      ("phone".toList, validatePhoneField env lead.phone), ("source_url".toList, source)]
  have hrun : validateLead env lead = .ok ⟨rollup fields, fields⟩ := by
    unfold validateLead
    rw [hsite, hsource]
    rfl
  exact ⟨⟨rollup fields, fields⟩, hrun, rfl, rfl⟩

theorem validateLead_splits {lead : NormalizedLead} {validation : LeadValidation}
    (h : validateLead env lead = .ok validation) :
    splits env lead.website = true ∧ splits env lead.source.url = true := by
  unfold validateLead at h
  rw [← validateUrlField_splits, ← validateUrlField_splits]
  cases hsite : validateUrlField env lead.website with
  | error e =>
      rw [hsite] at h
      cases h
  | ok website =>
      cases hsource : validateUrlField env lead.source.url with
      | error e =>
          rw [hsite, hsource] at h
          cases h
      | ok source => exact ⟨⟨website, rfl⟩, ⟨source, rfl⟩⟩

theorem graded_website (lead : NormalizedLead) :
    GradedValid env lead "website".toList ↔
      validateUrlField env lead.website = .ok .valid ∧ splits env lead.source.url = true := by
  constructor
  · rintro ⟨validation, hok, hfield⟩
    obtain ⟨hsite, hsource⟩ := validateLead_splits hok
    obtain ⟨website, hsite⟩ := (validateUrlField_splits _).mpr hsite
    obtain ⟨source, hgrade⟩ := (validateUrlField_splits _).mpr hsource
    obtain ⟨found, hfound, hwebsite, -⟩ := validateLead_grades hsite hgrade
    obtain rfl : validation = found := Except.ok.inj (hok.symm.trans hfound)
    obtain rfl : website = .valid := Option.some.inj (hwebsite.symm.trans hfield)
    exact ⟨hsite, hsource⟩
  · rintro ⟨hsite, hsource⟩
    obtain ⟨source, hsource⟩ := (validateUrlField_splits _).mpr hsource
    obtain ⟨validation, hok, hwebsite, -⟩ := validateLead_grades hsite hsource
    exact ⟨validation, hok, hwebsite⟩

theorem graded_phone (lead : NormalizedLead) :
    GradedValid env lead "phone".toList ↔
      validatePhoneField env lead.phone = .valid ∧ splits env lead.website = true ∧
        splits env lead.source.url = true := by
  constructor
  · rintro ⟨validation, hok, hfield⟩
    obtain ⟨hsite, hsource⟩ := validateLead_splits hok
    obtain ⟨website, hwebsite⟩ := (validateUrlField_splits _).mpr hsite
    obtain ⟨source, hgrade⟩ := (validateUrlField_splits _).mpr hsource
    obtain ⟨found, hfound, -, hphone⟩ := validateLead_grades hwebsite hgrade
    obtain rfl : validation = found := Except.ok.inj (hok.symm.trans hfound)
    exact ⟨Option.some.inj (hphone.symm.trans hfield), hsite, hsource⟩
  · rintro ⟨hphone, hsite, hsource⟩
    obtain ⟨website, hsite⟩ := (validateUrlField_splits _).mpr hsite
    obtain ⟨source, hsource⟩ := (validateUrlField_splits _).mpr hsource
    obtain ⟨validation, hok, -, hgrade⟩ := validateLead_grades hsite hsource
    exact ⟨validation, hok, hgrade.trans (congrArg some hphone)⟩

theorem phone_valid_iff (hreparses : env.phonenumbers.Reparses) (region : Option Text)
    {value : Option Text} {text : Text} (hclean : cleanText env value = some text) :
    validatePhoneField env (normalizePhone env value region) = .valid ↔
      dials env region text = true := by
  have hgrade (written : Text) : validatePhoneField env (some written) = .valid ↔
      (env.phonenumbers.parse written none).any env.phonenumbers.isValidNumber = true := by
    cases hparse : env.phonenumbers.parse written none with
    | none => simp [validatePhoneField, hparse, FieldValidation.valid, FieldValidation.invalid]
    | some n =>
        cases hvalid : env.phonenumbers.isValidNumber n <;>
          simp [validatePhoneField, hparse, hvalid, FieldValidation.valid, FieldValidation.invalid]
  rw [normalizePhone, hclean, Option.map_some, hgrade, dials, Bool.or_eq_true]
  cases hparse : env.phonenumbers.parse text region with
  | none => simp
  | some n =>
      cases hvalid : env.phonenumbers.isValidNumber n with
      | false => simp [hvalid]
      | true =>
          obtain ⟨m, hm, hmvalid⟩ := hreparses n hvalid
          simp [hvalid, hm, hmvalid]

theorem matched_website {left right : NormalizedLead} {result : MatchResult}
    (h : matchLeads env left right = some result) (hrule : result.rule = .website) :
    ∃ domain, left.websiteDomain = some domain ∧ right.websiteDomain = some domain := by
  rcases matchLeads_cases h with ⟨rfl, -⟩ | ⟨-, hkey⟩ | ⟨rfl, -⟩ | ⟨score, rfl⟩ | ⟨rfl, -⟩
  · cases hrule
  · exact equalKey_iff.mp hkey
  · cases hrule
  · cases hrule
  · cases hrule

theorem matched_phone {left right : NormalizedLead} {result : MatchResult}
    (h : matchLeads env left right = some result) (hrule : result.rule = .phone) :
    ∃ number, left.phone = some number ∧ right.phone = some number := by
  rcases matchLeads_cases h with ⟨rfl, -⟩ | ⟨rfl, -⟩ | ⟨-, hkey⟩ | ⟨score, rfl⟩ | ⟨rfl, -⟩
  · cases hrule
  · cases hrule
  · obtain ⟨number, hl, hr⟩ := equalKey_iff.mp hkey
    exact ⟨number, (Option.filter_eq_some_iff.mp hl).1, (Option.filter_eq_some_iff.mp hr).1⟩
  · cases hrule
  · cases hrule

theorem normalizedWebsite (record : RawRecord) (region : Option Text) :
    (normalizeRecord env record region).website =
      (cleanText env (record.field "website")).map (writtenSite env) :=
  normalizeUrl_eq env _

theorem splits_normalized (record : RawRecord) (region : Option Text) :
    splits env (normalizeRecord env record region).website =
      splits env (cleanText env (record.field "website")) := by
  rw [normalizedWebsite]
  cases hclean : cleanText env (record.field "website") with
  | none => rfl
  | some text => exact writtenSite_splits (cleanText_safe hclean)

theorem website_graded_iff {record : RawRecord} {region : Option Text} {domain : Text}
    (hdomain : (normalizeRecord env record region).websiteDomain = some domain) :
    GradedValid env (normalizeRecord env record region) "website".toList ↔
      usableSite env record = true := by
  have hextract : extractDomain env (normalizeRecord env record region).website = some domain :=
    hdomain
  rw [graded_website, usableSite, Bool.and_eq_true, and_comm]
  refine and_congr Iff.rfl ?_
  rw [normalizedWebsite] at hextract ⊢
  cases hclean : cleanText env (record.field "website") with
  | none => simp [hclean, extractDomain] at hextract
  | some text =>
      rw [hclean] at hextract
      exact website_valid_iff (cleanText_safe hclean) hextract

theorem phone_graded_iff (hreparses : env.phonenumbers.Reparses) {record : RawRecord}
    {region : Option Text} {number : Text}
    (hnumber : (normalizeRecord env record region).phone = some number) :
    GradedValid env (normalizeRecord env record region) "phone".toList ↔
      usableNumber env record region = true := by
  obtain ⟨text, hclean, -⟩ := Option.map_eq_some_iff.mp hnumber
  have hphone := phone_valid_iff hreparses
    (phoneRegion region (normalizeCountry env (record.field "country"))) hclean
  rw [graded_phone, splits_normalized, usableNumber, hclean]
  simp only [Bool.and_eq_true, Option.any_some]
  rw [and_comm, and_comm (a := splits env (cleanText env (record.field "website")) = true)]
  exact and_congr Iff.rfl hphone

/-- A match on the website, or on the phone, has the field graded valid on both leads exactly when
the texts of both records are usable. -/
theorem matched_field_is_valid_iff (env : Platform) (hreparses : env.phonenumbers.Reparses)
    (r₁ r₂ : RawRecord) (region₁ region₂ : Option Text) {result : MatchResult}
    (hmatch : matchLeads env (normalizeRecord env r₁ region₁) (normalizeRecord env r₂ region₂) =
      some result) :
    (result.rule = .website →
      (GradedValid env (normalizeRecord env r₁ region₁) "website".toList ∧
          GradedValid env (normalizeRecord env r₂ region₂) "website".toList ↔
        usableSite env r₁ = true ∧ usableSite env r₂ = true)) ∧
    (result.rule = .phone →
      (GradedValid env (normalizeRecord env r₁ region₁) "phone".toList ∧
          GradedValid env (normalizeRecord env r₂ region₂) "phone".toList ↔
        usableNumber env r₁ region₁ = true ∧ usableNumber env r₂ region₂ = true)) := by
  constructor
  · intro hrule
    obtain ⟨domain, hleft, hright⟩ := matched_website hmatch hrule
    exact and_congr (website_graded_iff hleft) (website_graded_iff hright)
  · intro hrule
    obtain ⟨number, hleft, hright⟩ := matched_phone hmatch hrule
    exact and_congr (phone_graded_iff hreparses hleft) (phone_graded_iff hreparses hright)

/-- Numbers are a plus sign and digits. -/
def Phonenumbers.plain : Phonenumbers where
  Number := Text
  parse text _ := if text.head? = some '+' && Text.isDigit (text.drop 1) then some text else none
  isValidNumber text := text.head? = some '+' && Text.isDigit (text.drop 1)
  formatE164 := id

def Platform.dialling : Platform := { Platform.ascii with phonenumbers := .plain }

theorem plain_reparses : Phonenumbers.plain.Reparses := by
  intro n hn
  exact ⟨n, if_pos hn, hn⟩

theorem plain_needsDigits : Phonenumbers.plain.NeedsDigits := by
  intro text region hno
  refine if_neg fun hdigits => ?_
  obtain ⟨-, hdigits⟩ := Bool.and_eq_true_iff.mp hdigits
  obtain ⟨hne, hall⟩ := Bool.and_eq_true_iff.mp hdigits
  cases hrest : text.drop 1 with
  | nil =>
      rw [hrest] at hne
      cases hne
  | cons c cs =>
      have hc : c ∈ text.drop 1 := by simp [hrest]
      have hdigit := List.all_eq_true.mp hall c hc
      rw [(hno c (List.mem_of_mem_drop hc)).2] at hdigit
      cases hdigit

def company (name field value : String) : RawRecord :=
  ⟨⟨"csv".toList, none⟩,
    [("company_name".toList, some name.toList), (field.toList, some value.toList)], 1⟩

theorem matched_field_is_valid_iff_site :
    GradedValid .dialling (normalizeRecord .dialling (company "A" "website" "x.fi") none)
        "website".toList ∧
      GradedValid .dialling (normalizeRecord .dialling (company "B" "website" "www.x.fi/b") none)
        "website".toList := by
  obtain ⟨result, hmatch, hrule⟩ : ∃ result, matchLeads .dialling
      (normalizeRecord .dialling (company "A" "website" "x.fi") none)
      (normalizeRecord .dialling (company "B" "website" "www.x.fi/b") none) = some result ∧
        result.rule = .website :=
    ⟨⟨.website, 95 / 100, true⟩, by decide +kernel, rfl⟩
  refine ((matched_field_is_valid_iff .dialling plain_reparses _ _ none none hmatch).1 hrule).mpr ?_
  decide +kernel

theorem matched_field_is_refused :
    ¬∀ env : Platform, env.phonenumbers.NeedsDigits → env.phonenumbers.Reparses →
      ∀ (r₁ r₂ : RawRecord) (region₁ region₂ : Option Text),
        r₁.field "external_id" = none → r₂.field "external_id" = none →
        ∀ result, matchLeads env (normalizeRecord env r₁ region₁)
            (normalizeRecord env r₂ region₂) = some result → result.autoMerge = true →
          (result.rule = .website →
            GradedValid env (normalizeRecord env r₁ region₁) "website".toList ∧
              GradedValid env (normalizeRecord env r₂ region₂) "website".toList) ∧
          (result.rule = .phone →
            GradedValid env (normalizeRecord env r₁ region₁) "phone".toList ∧
              GradedValid env (normalizeRecord env r₂ region₂) "phone".toList) := by
  intro h
  have hgrades := h .dialling plain_needsDigits plain_reparses
    (company "A" "website" "http://n/a") (company "B" "website" "http://n/a") none none
    (by decide +kernel) (by decide +kernel) ⟨.website, 95 / 100, true⟩ (by decide +kernel) rfl
  obtain ⟨validation, hvalid, hfield⟩ := (hgrades.1 rfl).1
  have hinvalid : (validateLead .dialling (normalizeRecord .dialling
      (company "A" "website" "http://n/a") none)).toOption.all
        (fun v => v.fields.get "website".toList = some (.invalid "syntax")) = true := by
    decide +kernel
  rw [hvalid] at hinvalid
  have hgrade := of_decide_eq_true hinvalid
  rw [hfield] at hgrade
  exact absurd hgrade (by decide)

end LeadPipe
