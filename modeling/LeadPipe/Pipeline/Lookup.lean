import LeadPipe.Framework.Selection
import LeadPipe.Deduplication.Slugs
import LeadPipe.Pipeline.Ingest

/-!
# The candidate query and the matcher

A stored lead satisfies the disjunction of the candidate query exactly when `match` accepts it,
so the lookup scans the accepted leads with the twenty lowest ids. It finds what a scan of the
whole table finds unless that lead is not among the twenty.
-/

namespace LeadPipe

open Framework

variable (env : Platform)

/-- `similarity` of `pg_trgm` is the exact similarity of the Python code. -/
def Platform.SimilarityAgrees : Prop := ∀ a b, env.similarity a b = LeadPipe.similarity env a b

/-- Case folding makes no text empty. -/
def Unicode.FoldsToText (uc : Unicode) : Prop := ∀ s, uc.casefold s = [] → s = []

/-- The derived columns are the ones `_apply` writes. -/
structure Lead.Indexed (l : Lead) : Prop where
  nameSlug : l.nameSlug = companySlug env l.companyName
  locationKey : l.locationKey = LeadPipe.locationKey env l.city l.country

theorem applyMerged_indexed (l : Lead) (merged : MergedLead) (validation : LeadValidation) :
    (LeadRepository.applyMerged env l merged validation).Indexed env :=
  ⟨rfl, rfl⟩

theorem orNone_ne_nil (s : Text) : Text.orNone s ≠ some [] := by
  unfold Text.orNone
  cases s <;> simp

theorem companySlug_ne_nil (value : Option Text) : companySlug env value ≠ some [] := by
  intro h
  obtain ⟨v, -, hv⟩ := Option.bind_eq_some_iff.mp h
  exact orNone_ne_nil _ hv

theorem locationKey_ne_nil (hfold : env.unicode.FoldsToText) (city country : Option Text) :
    locationKey env city country ≠ some [] := by
  have hpart : ∀ part ∈ [city, country].filterMap
      (fun part => if Text.truthy part then part else none), env.unicode.casefold part ≠ [] := by
    intro part hpart hempty
    obtain ⟨value, -, hvalue⟩ := List.mem_filterMap.mp hpart
    obtain rfl := hfold part hempty
    split at hvalue
    · rename_i htruthy
      rw [hvalue] at htruthy
      cases htruthy
    · cases hvalue
  unfold locationKey
  split
  · simp
  · rename_i parts hne
    revert hpart hne
    generalize [city, country].filterMap
      (fun part => if Text.truthy part then part else none) = parts
    intro hpart hne
    cases parts with
    | nil => exact absurd rfl hne
    | cons p ps =>
        have hp := hpart p (by simp)
        cases ps <;> simp [Text.join, hp]

theorem truthy_iff {key : Option Text} (h : key ≠ some []) :
    Text.truthy key = key.isSome := by
  cases key with
  | none => rfl
  | some k =>
      have hk : k ≠ [] := fun heq => h (congrArg some heq)
      simp [Text.truthy, hk]

theorem equalKey_column {key : Option Text} (column : Option Text) (h : key ≠ some []) :
    (Text.truthy key && column == key) = equalKey key column := by
  rw [truthy_iff h, equalKey, Bool.beq_comm]

theorem equalKey_usable (usable : Text → Bool) (hnil : usable [] = false)
    (value column : Option Text) :
    (Text.truthy (value.filter usable) && column == value.filter usable) =
      equalKey (value.filter usable) (column.filter usable) := by
  cases hkey : value.filter usable with
  | none => rfl
  | some v =>
      obtain ⟨-, hv⟩ := Option.filter_eq_some_iff.mp hkey
      have hne : v ≠ [] := by
        rintro rfl
        rw [hnil] at hv
        cases hv
      rw [equalKey_column _ (by simpa using hne)]
      cases column with
      | none => rfl
      | some c =>
          by_cases hc : usable c = true
          · simp [Option.filter, hc]
          · have hdiff : v ≠ c := by
              rintro rfl
              exact hc hv
            simp [equalKey, Option.filter, hc, hdiff]

theorem matchNameLocation_isSome (hsim : env.SimilarityAgrees) (a b : Fingerprints)
    (policy : MatchPolicy) (hslug : a.nameSlug ≠ some []) (hlocation : a.location ≠ some []) :
    (Text.truthy a.nameSlug && Text.truthy a.location && b.location == a.location &&
      match b.nameSlug, a.nameSlug with
      | some stored, some slug => policy.nameSimilarityThreshold ≤ env.similarity stored slug
      | _, _ => false) = (matchNameLocation env a b policy).isSome := by
  rw [Bool.and_assoc (Text.truthy a.nameSlug), equalKey_column _ hlocation, truthy_iff hslug]
  unfold matchNameLocation
  cases a.nameSlug with
  | none => simp
  | some slug =>
      cases b.nameSlug with
      | none => simp
      | some stored =>
          cases equalKey a.location b.location with
          | false => simp
          | true =>
              simp only [Option.isSome_some, Bool.and_self, if_true, Bool.true_and]
              rw [hsim, similarity_comm env stored slug]
              split
              · rename_i hlow
                simpa using hlow
              · rename_i hhigh
                simpa using hhigh

/-- `match` has something to say about the stored lead. -/
def accepts (lead : NormalizedLead) (stored : Lead) : Bool :=
  (matchLeads env lead (asNormalized stored lead)).isSome

theorem matchLeads_isSome (left right : NormalizedLead) (policy : MatchPolicy)
    (hextra : right.externalId = none) :
    (matchLeads env left right policy).isSome =
      (equalKey (usableEmail left.email) (usableEmail right.email) ||
        equalKey left.websiteDomain right.websiteDomain ||
        equalKey (usablePhone left.phone) (usablePhone right.phone) ||
        (matchNameLocation env (fingerprints env left) (fingerprints env right) policy).isSome) := by
  have hexternal : equalKey left.externalId right.externalId = false := by
    rw [hextra, equalKey]
    cases left.externalId <;> rfl
  unfold matchLeads
  simp only [fingerprints, hexternal]
  cases equalKey (usableEmail left.email) (usableEmail right.email) with
  | true => rfl
  | false =>
      cases equalKey left.websiteDomain right.websiteDomain with
      | true => rfl
      | false =>
          cases equalKey (usablePhone left.phone) (usablePhone right.phone) with
          | true => rfl
          | false =>
              simp only [Bool.false_eq_true, if_false, and_false, Bool.false_or]
              split <;> rename_i hname <;> simp [hname]

variable {env}

theorem isCandidate_eq_accepts (hsim : env.SimilarityAgrees) (hfold : env.unicode.FoldsToText)
    {lead : NormalizedLead} (hdomain : lead.websiteDomain ≠ some []) {stored : Lead}
    (hindexed : stored.Indexed env) :
    LeadRepository.isCandidate env (fingerprints env lead) defaultPolicy stored =
      accepts env lead stored := by
  have hname := matchNameLocation_isSome env hsim (fingerprints env lead)
    (fingerprints env (asNormalized stored lead)) defaultPolicy
    (companySlug_ne_nil env lead.companyName)
    (locationKey_ne_nil env hfold lead.city lead.country)
  have hslug : (fingerprints env (asNormalized stored lead)).nameSlug = stored.nameSlug :=
    hindexed.nameSlug.symm
  have hlocation : (fingerprints env (asNormalized stored lead)).location = stored.locationKey :=
    hindexed.locationKey.symm
  rw [hslug, hlocation] at hname
  have hemail := equalKey_usable (fun e => !e.isEmpty && e.contains '@') rfl
    lead.email stored.email
  have hsite := equalKey_column stored.websiteDomain hdomain
  have hphone := equalKey_usable (fun p => !p.isEmpty && Text.startsWith ['+'] p) rfl
    lead.phone stored.phone
  rw [accepts, matchLeads_isSome env _ _ _ rfl]
  exact congrArg₂ or (congrArg₂ or (congrArg₂ or hemail hsite) hphone) hname

section Scan

variable (env)

/-- What `match` says about a stored lead other than the excluded one. -/
def matchOf (lead : NormalizedLead) (exclude : Option Nat) (stored : Lead) : Option MatchResult :=
  if some stored.id = exclude then none else matchLeads env lead (asNormalized stored lead)

/-- The highest confidence among these leads, the lowest id on ties. -/
def BestAmong (lead : NormalizedLead) (exclude : Option Nat) (leads : List Lead)
    (best : Option (Lead × MatchResult)) : Prop :=
  Selects (matchOf env lead exclude) MatchResult.confidence Lead.id leads best

def FullScan (st : Store) (lead : NormalizedLead) (exclude : Option Nat)
    (best : Option (Lead × MatchResult)) : Prop :=
  BestAmong env lead exclude st.leads.rows best

def acceptedBelow (st : Store) (lead : NormalizedLead) (leadId : Nat) : List Lead :=
  (st.leads.select (accepts env lead)).filter fun l => l.id < leadId

theorem betterMatch_eq (lead : NormalizedLead) (exclude : Option Nat) :
    betterMatch env lead exclude = keepBest (matchOf env lead exclude) MatchResult.confidence := by
  funext best candidate
  unfold betterMatch keepBest matchOf
  by_cases hex : some candidate.id = exclude
  · simp only [hex, if_true]
  · simp only [hex, if_false]
    cases matchLeads env lead (asNormalized candidate lead) with
    | none => rfl
    | some result => cases best <;> rfl

theorem pickBest_bestAmong (lead : NormalizedLead) (exclude : Option Nat) {leads : List Lead}
    (hsorted : leads.Pairwise fun l l' => l.id < l'.id) :
    BestAmong env lead exclude leads (pickBest env lead exclude leads) := by
  rw [pickBest, betterMatch_eq]
  exact selects_scan _ _ hsorted

variable {env}

theorem isCandidate_hasConditions {fp : Fingerprints} {policy : MatchPolicy} {l : Lead}
    (h : LeadRepository.isCandidate env fp policy l = true) :
    LeadRepository.hasConditions fp = true := by
  unfold LeadRepository.isCandidate at h
  unfold LeadRepository.hasConditions
  simp only [Bool.or_eq_true, Bool.and_eq_true] at h ⊢
  rcases h with ((⟨hemail, -⟩ | ⟨hdomain, -⟩) | ⟨hphone, -⟩) | ⟨⟨⟨hslug, hlocation⟩, -⟩, -⟩
  · exact .inl (.inl (.inl hemail))
  · exact .inl (.inl (.inr hdomain))
  · exact .inl (.inr hphone)
  · exact .inr ⟨hslug, hlocation⟩

/-- The rows the query returns, with and without its guard. -/
theorem candidates_eq (hsim : env.SimilarityAgrees) (hfold : env.unicode.FoldsToText)
    {lead : NormalizedLead} (hdomain : lead.websiteDomain ≠ some []) {st : Store}
    (hindexed : ∀ l ∈ st.leads, l.Indexed env) :
    (if LeadRepository.hasConditions (fingerprints env lead) then
      LeadRepository.shortlist env st (fingerprints env lead) else []) =
      (st.leads.select (accepts env lead)).take LeadRepository.candidateLimit := by
  have hselect : st.leads.select (LeadRepository.isCandidate env (fingerprints env lead)
      defaultPolicy) = st.leads.select (accepts env lead) := by
    refine Table.select_congr fun l => and_congr_right fun hl => ?_
    rw [isCandidate_eq_accepts hsim hfold hdomain (hindexed l hl)]
  split
  · rw [LeadRepository.shortlist, hselect]
  · rename_i hno
    have hempty : st.leads.select (accepts env lead) = [] := by
      rw [← hselect, List.eq_nil_iff_forall_not_mem]
      intro l hl
      exact hno (isCandidate_hasConditions (Table.mem_select.mp hl).2)
    rw [hempty, List.take_nil]

/-- The lead a full scan settles on is accepted, and the lookup reads it when fewer than twenty
accepted leads come before it. -/
theorem winner_read_iff {st : Store} {lead : NormalizedLead} {exclude : Option Nat}
    {winner : Lead} {result : MatchResult}
    (hwins : FullScan env st lead exclude (some (winner, result))) :
    winner ∈ (st.leads.select (accepts env lead)).take LeadRepository.candidateLimit ↔
      (acceptedBelow env st lead winner.id).length < LeadRepository.candidateLimit := by
  obtain ⟨hstored, hscore, -⟩ := hwins
  have haccepted : accepts env lead winner = true := by
    unfold matchOf at hscore
    split at hscore
    · cases hscore
    · rw [accepts, hscore]
      rfl
  exact mem_take_iff Lead.id (st.leads.select_sorted _)
    (Table.mem_select.mpr ⟨hstored, haccepted⟩) _

end Scan

/-- The lookup keeps the best of the twenty accepted leads with the lowest ids, and that is the
best of all unless twenty accepted leads come before it. -/
theorem lookup_scans_first_candidates (env : Platform) (hsim : env.SimilarityAgrees)
    (hfold : env.unicode.FoldsToText) (lead : NormalizedLead)
    (hdomain : lead.websiteDomain ≠ some []) (exclude : Option Nat)
    {s : Session Store Write RunStats} (hs : s.Healthy)
    (hindexed : ∀ l ∈ s.view.leads, l.Indexed env) :
    ∃ best, bestMatch env lead exclude s = (.ok best, s) ∧
      BestAmong env lead exclude
        ((s.view.leads.select (accepts env lead)).take LeadRepository.candidateLimit) best ∧
      (FullScan env s.view lead exclude best ↔ ∀ winner result,
        FullScan env s.view lead exclude (some (winner, result)) →
          (acceptedBelow env s.view lead winner.id).length < LeadRepository.candidateLimit) := by
  have hsorted := s.view.leads.select_sorted (accepts env lead)
  have hrun := bestMatch_run env hs lead exclude
  rw [candidates_eq hsim hfold hdomain hindexed] at hrun
  have hbest := pickBest_bestAmong env lead exclude
    (hsorted.sublist (List.take_sublist LeadRepository.candidateLimit _))
  refine ⟨_, hrun, hbest, ?_⟩
  have hpart : ((s.view.leads.select (accepts env lead)).take
      LeadRepository.candidateLimit).Sublist s.view.leads.rows :=
    (List.take_sublist _ _).trans List.filter_sublist
  refine (Selects.of_part s.view.leads.sorted hpart hbest).trans ?_
  constructor
  · intro hread winner result hwins
    exact (winner_read_iff hwins).mp (hread winner result hwins)
  · intro hread winner result hwins
    exact (winner_read_iff hwins).mpr (hread winner result hwins)

/-- ASCII text, with the trigrams counted the way the Python code counts them. -/
def Platform.trigrams : Platform := { Platform.ascii with similarity := LeadPipe.similarity .ascii }

theorem trigrams_agrees : Platform.trigrams.SimilarityAgrees := fun _ _ => rfl

theorem ascii_foldsToText : Unicode.ascii.FoldsToText := fun _ h => List.map_eq_nil_iff.mp h

def acme (email : Option Text) : NormalizedLead where
  companyName := some "Acme".toList
  contactName := none
  website := none
  websiteDomain := none
  email := email
  phone := none
  address := none
  city := some "Oulu".toList
  country := none
  extra := []
  source := ⟨"csv".toList, none⟩
  collectedAt := 1

def newcomer : NormalizedLead := acme (some "a@x.fi".toList)

def storedAcme (id : Nat) (email : Option Text) : Lead :=
  LeadRepository.applyMerged .trigrams (LeadRepository.blank id ⟨acme email, []⟩) ⟨acme email, []⟩
    ⟨.valid, []⟩

def namesakeRows : Nat → Table Lead
  | 0 => .empty
  | n + 1 => (namesakeRows n).put (storedAcme (n + 1) none)

/-- Namesakes under the lower ids, and after them the lead with the address. -/
def namesakes (n : Nat) : Store :=
  { Store.empty with leads := (namesakeRows n).put (storedAcme (n + 1) newcomer.email) }

theorem namesakes_indexed (n : Nat) : ∀ l ∈ (namesakes n).leads, l.Indexed .trigrams := by
  have hrows : ∀ l ∈ namesakeRows n, l.Indexed .trigrams := by
    induction n with
    | zero => exact fun l hl => absurd hl (Table.not_mem_empty l)
    | succ n ih =>
        intro l hl
        rcases Table.mem_put.mp hl with rfl | ⟨hold, -⟩
        · exact applyMerged_indexed _ _ _ _
        · exact ih l hold
  intro l hl
  rcases Table.mem_put.mp hl with rfl | ⟨hold, -⟩
  · exact applyMerged_indexed _ _ _ _
  · exact hrows l hold

theorem lookup_scans_first_candidates_namesakes :
    ∃ best, bestMatch .trigrams newcomer none (namesakes 2).session =
        (.ok best, (namesakes 2).session) ∧
      FullScan .trigrams (namesakes 2) newcomer none best := by
  have hopen : (namesakes 2).session.Healthy := ⟨rfl, rfl⟩
  obtain ⟨best, hrun, -, hscan⟩ := lookup_scans_first_candidates .trigrams trigrams_agrees
    ascii_foldsToText newcomer (by decide) none hopen (namesakes_indexed 2)
  refine ⟨best, hrun, hscan.mpr fun winner result hwins => ?_⟩
  have hbelow : (acceptedBelow .trigrams (namesakes 2) newcomer winner.id).length ≤
      (namesakes 2).leads.rows.length :=
    (List.length_filter_le _ _).trans (List.length_filter_le _ _)
  have hrows : (namesakes 2).leads.rows.length < LeadRepository.candidateLimit := by
    decide +kernel
  exact hbelow.trans_lt hrows

theorem lookup_misses_the_best :
    ¬∀ env : Platform, env.SimilarityAgrees → env.unicode.FoldsToText →
      ∀ (lead : NormalizedLead) (exclude : Option Nat) (s : Session Store Write RunStats),
        lead.websiteDomain ≠ some [] → s.Healthy → (∀ l ∈ s.view.leads, l.Indexed env) →
        ∀ best s', bestMatch env lead exclude s = (.ok best, s') →
          FullScan env s.view lead exclude best := by
  intro h
  have hopen : (namesakes 20).session.Healthy := ⟨rfl, rfl⟩
  have hscan := h .trigrams trigrams_agrees ascii_foldsToText newcomer none
    (namesakes 20).session (by decide) hopen (namesakes_indexed 20) _ _
    (bestMatch_run .trigrams hopen _ _)
  have hexact : storedAcme 21 newcomer.email ∈ (namesakes 20).leads :=
    Table.mem_put.mpr (.inl rfl)
  have hsure : matchOf .trigrams newcomer none (storedAcme 21 newcomer.email) =
      some ⟨.email, 1, true⟩ := by
    decide +kernel
  -- the twenty rows the query returns are namesakes to be reviewed
  have hreview : (pickBest .trigrams newcomer none
      (if LeadRepository.hasConditions (fingerprints .trigrams newcomer) then
        LeadRepository.shortlist .trigrams (namesakes 20) (fingerprints .trigrams newcomer)
        else [])).any (fun best => best.2.confidence < 1) = true := by
    decide +kernel
  obtain ⟨⟨winner, result⟩, hbest, hlow⟩ := (Option.any_eq_true _ _).mp hreview
  have hwins : FullScan .trigrams (namesakes 20) newcomer none (some (winner, result)) :=
    hbest ▸ hscan
  have hlow : result.confidence < 1 := of_decide_eq_true hlow
  rcases hwins.2.2 _ hexact _ hsure with hless | ⟨hsame, -⟩
  · exact absurd hless hlow.not_gt
  · exact absurd hsame hlow.ne'

end LeadPipe
