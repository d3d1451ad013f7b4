import LeadPipe.Pipeline.Derived

/-!
# One lead per company

Two leads collide when their stored columns share an address, a domain or a number: matching
the one against the other would merge them. A record that matches one lead at most, and a
lead the lookup returns, never makes two leads collide, because a rebuilt column is either
the old one or the record's.
-/

namespace LeadPipe

open Framework

variable {env : Platform}

/-- The exact keys of the match rules, on two rows of columns. -/
def keysMeet (p q : LeadPayload) : Bool :=
  equalKey (usableEmail p.email) (usableEmail q.email) ||
    equalKey p.websiteDomain q.websiteDomain ||
    equalKey (usablePhone p.phone) (usablePhone q.phone)

theorem keysMeet_comm (p q : LeadPayload) : keysMeet p q = keysMeet q p := by
  have hequal (a b : Option Text) : equalKey a b = equalKey b a := by
    cases a <;> cases b <;> simp [equalKey, Bool.beq_comm]
  simp only [keysMeet, hequal (usableEmail p.email), hequal p.websiteDomain,
    hequal (usablePhone p.phone)]

def autoMatches (env : Platform) (lead : NormalizedLead) (stored : Lead) : Bool :=
  (matchLeads env lead (asNormalized stored lead)).any MatchResult.autoMerge

theorem matchNameLocation_review {a b : Fingerprints} {result : MatchResult}
    (h : matchNameLocation env a b defaultPolicy = some result) : result.autoMerge = false := by
  have hcap : defaultPolicy.nameConfidenceCap < defaultPolicy.autoMergeThreshold := by
    decide +kernel
  obtain ⟨score, rfl⟩ := matchNameLocation_some h
  have hlt := lt_of_le_of_lt (min_le_right score _) hcap
  simpa only [matchResult, decide_eq_false_iff_not, not_le] using hlt

theorem exact_auto {rule : MatchRule} (h : rule ≠ .nameLocation) :
    (matchResult rule (exactConfidence rule) defaultPolicy).autoMerge = true := by
  cases rule <;> first | exact absurd rfl h | decide +kernel

/-- A stored lead carries no identifier of a source, so it merges by its exact keys alone. -/
theorem match_stored (left : NormalizedLead) (stored : Lead) (incoming : NormalizedLead) :
    (matchLeads env left (asNormalized stored incoming)).any MatchResult.autoMerge =
      keysMeet left.toLeadPayload stored.toLeadPayload := by
  have hid : (fingerprints env (asNormalized stored incoming)).externalId = none := rfl
  have hnone : equalKey (fingerprints env left).externalId none = false := by
    cases (fingerprints env left).externalId <;> rfl
  unfold matchLeads keysMeet
  simp only [hid, hnone, Bool.false_eq_true, and_false, if_false]
  change Option.any _ (if equalKey (usableEmail left.email) (usableEmail stored.email) = true then _
    else if equalKey left.websiteDomain stored.websiteDomain = true then _
    else if equalKey (usablePhone left.phone) (usablePhone stored.phone) = true then _ else _) = _
  by_cases hemail : equalKey (usableEmail left.email) (usableEmail stored.email) = true
  · rw [if_pos hemail, Option.any_some, exact_auto (by decide), hemail]
    rfl
  by_cases hdomain : equalKey left.websiteDomain stored.websiteDomain = true
  · rw [if_neg hemail, if_pos hdomain, Option.any_some, exact_auto (by decide), hdomain]
    simp
  by_cases hphone : equalKey (usablePhone left.phone) (usablePhone stored.phone) = true
  · rw [if_neg hemail, if_neg hdomain, if_pos hphone, Option.any_some, exact_auto (by decide),
      hphone]
    simp
  · rw [if_neg hemail, if_neg hdomain, if_neg hphone]
    simp only [hemail, hdomain, hphone, Bool.or_false]
    cases hname : matchNameLocation env (fingerprints env left)
        (fingerprints env (asNormalized stored incoming)) defaultPolicy with
    | none => rfl
    | some result => exact matchNameLocation_review hname

theorem autoMatches_eq (env : Platform) (lead : NormalizedLead) (stored : Lead) :
    autoMatches env lead stored = keysMeet lead.toLeadPayload stored.toLeadPayload :=
  match_stored lead stored lead

/-- The best match so far is good enough to merge. -/
def Merges (best : Option (Lead × MatchResult)) : Prop :=
  ∃ existing result, best = some (existing, result) ∧
    defaultPolicy.autoMergeThreshold ≤ result.confidence

theorem Merges.betterMatch {lead : NormalizedLead} {exclude : Option Nat}
    {best : Option (Lead × MatchResult)} (h : Merges best) (c : Lead) :
    Merges (betterMatch env lead exclude best c) := by
  obtain ⟨existing, result, rfl, hbest⟩ := h
  unfold LeadPipe.betterMatch
  split
  · exact ⟨existing, result, rfl, hbest⟩
  split
  · exact ⟨existing, result, rfl, hbest⟩
  · rename_i candidate _
    simp only []
    split
    · rename_i hlt
      exact ⟨c, candidate, rfl, hbest.trans hlt.le⟩
    · exact ⟨existing, result, rfl, hbest⟩

theorem merges_betterMatch {lead : NormalizedLead} {exclude : Option Nat}
    {best : Option (Lead × MatchResult)} {c : Lead} (hex : some c.id ≠ exclude)
    (hauto : autoMatches env lead c = true) : Merges (betterMatch env lead exclude best c) := by
  obtain ⟨result, hmatch, hresult⟩ := (Option.any_eq_true _ _).mp hauto
  have hconfidence : defaultPolicy.autoMergeThreshold ≤ result.confidence := by
    rw [matchLeads_autoMerge hmatch] at hresult
    exact of_decide_eq_true hresult
  unfold betterMatch
  rw [if_neg hex, hmatch]
  cases best with
  | none => exact ⟨c, result, rfl, hconfidence⟩
  | some best =>
      obtain ⟨existing, current⟩ := best
      simp only []
      split
      · exact ⟨c, result, rfl, hconfidence⟩
      · rename_i hlt
        exact ⟨existing, current, rfl, hconfidence.trans (not_lt.mp hlt)⟩

theorem pickBest_merges {lead : NormalizedLead} {exclude : Option Nat} {candidates : List Lead}
    {c : Lead} (hc : c ∈ candidates) (hex : some c.id ≠ exclude)
    (hauto : autoMatches env lead c = true) :
    Merges (pickBest env lead exclude candidates) := by
  have hkeeps : ∀ (cs : List Lead) best, Merges best →
      Merges (cs.foldl (betterMatch env lead exclude) best) := by
    intro cs
    induction cs with
    | nil => exact fun best h => h
    | cons c' cs ih => exact fun best h => ih _ (h.betterMatch c')
  suffices hfold : ∀ best, Merges (candidates.foldl (betterMatch env lead exclude) best) from
    hfold none
  induction candidates with
  | nil => cases hc
  | cons c' cs ih =>
      intro best
      rcases List.mem_cons.mp hc with rfl | hc
      · exact hkeeps cs _ (merges_betterMatch hex hauto)
      · exact ih hc _

/-- Each exact key of `new` is the one of `p` or the one of `q`. -/
structure KeysFrom (new p q : LeadPayload) : Prop where
  email : new.email = p.email ∨ new.email = q.email
  websiteDomain : new.websiteDomain = p.websiteDomain ∨ new.websiteDomain = q.websiteDomain
  phone : new.phone = p.phone ∨ new.phone = q.phone

theorem KeysFrom.meet {new p q other : LeadPayload} (h : KeysFrom new p q)
    (hmeet : keysMeet new other = true) : keysMeet p other = true ∨ keysMeet q other = true := by
  simp only [keysMeet, Bool.or_eq_true] at hmeet ⊢
  rcases hmeet with (hemail | hdomain) | hphone
  · rcases h.email with he | he <;> rw [he] at hemail
    · exact .inl (.inl (.inl hemail))
    · exact .inr (.inl (.inl hemail))
  · rcases h.websiteDomain with hd | hd <;> rw [hd] at hdomain
    · exact .inl (.inl (.inr hdomain))
    · exact .inr (.inl (.inr hdomain))
  · rcases h.phone with hp | hp <;> rw [hp] at hphone
    · exact .inl (.inr hphone)
    · exact .inr (.inr hphone)

theorem mergedColumns_keysFrom {cs : List Candidate} {x : Candidate} {old new : LeadPayload}
    (h : Numbered (cs ++ [x])) (hold : mergedColumns cs = some old)
    (hnew : mergedColumns (cs ++ [x]) = some new) :
    KeysFrom new x.lead.toLeadPayload old := by
  have hnil : cs ≠ [] := by
    rintro rfl
    cases hold
  rw [mergedColumns_eq, if_neg hnil] at hold
  rw [mergedColumns_eq, if_neg (by simp)] at hnew
  obtain rfl := Option.some.inj hold
  obtain rfl := Option.some.inj hnew
  exact ⟨winning_snoc h LeadPayload.email LeadPayload.email,
    winning_snoc h LeadPayload.website LeadPayload.websiteDomain,
    winning_snoc h LeadPayload.phone LeadPayload.phone⟩

def noKeys : LeadPayload := ⟨none, none, none, none, none, none, none, none, none, []⟩

theorem keysMeet_noKeys (p : LeadPayload) : keysMeet noKeys p = false := rfl

theorem mergedColumns_singleton {x : Candidate} {new : LeadPayload}
    (hnew : mergedColumns [x] = some new) : KeysFrom new x.lead.toLeadPayload noKeys := by
  have hvalue (f f' : LeadPayload → Option Text) :
      ((winner f [x]).bind fun c => f' c.lead.toLeadPayload) = f' x.lead.toLeadPayload ∨
        ((winner f [x]).bind fun c => f' c.lead.toLeadPayload) = none := by
    cases hw : winner f [x] with
    | none => exact .inr rfl
    | some c =>
        obtain rfl : c = x := by simpa using (mem_of_firstWith hw).1
        exact .inl rfl
  rw [mergedColumns_eq, if_neg (by simp)] at hnew
  obtain rfl := Option.some.inj hnew
  exact ⟨hvalue LeadPayload.email LeadPayload.email,
    hvalue LeadPayload.website LeadPayload.websiteDomain,
    hvalue LeadPayload.phone LeadPayload.phone⟩

namespace Store

variable {st st' : Store} {call : IngestCall} {validation : LeadValidation} {row : Lead}

/-- No two leads share an exact key. -/
def Separate (st : Store) : Prop :=
  ∀ l ∈ st.leads, ∀ l' ∈ st.leads, l.id ≠ l'.id →
    keysMeet l.toLeadPayload l'.toLeadPayload = false

/-- The record of the call matches one lead automatically at most, and the lookup returns it. -/
def unambiguous (env : Platform) (st : Store) (call : IngestCall) : Bool :=
  call.blocked env ||
    (decide (∀ l ∈ st.leads, ∀ l' ∈ st.leads, autoMatches env (call.lead env) l = true →
        autoMatches env (call.lead env) l' = true → l.id = l'.id) &&
      decide (∀ l ∈ st.leads, autoMatches env (call.lead env) l = true →
        l ∈ st.shortlistOf env call))

def unambiguousRun (env : Platform) : Store → List IngestCall → Bool
  | _, [] => true
  | st, call :: calls =>
      st.unambiguous env call && (st.ingested env call).all fun st' => unambiguousRun env st' calls

theorem rebuilt_new (hnew : st.recordOf env call = none) (leadId : Nat) :
    ((st.upsertWrite env call validation).apply st).rebuilt env call leadId
        (st.recordId env call) =
      LeadRepository.candidatesFor st leadId ++ [st.incoming env call] := by
  have hsame : LeadRepository.candidatesFor ((st.upsertWrite env call validation).apply st)
      leadId = LeadRepository.candidatesFor st leadId := by
    apply LeadRepository.candidatesFor_congr
    · simp only [upsertWrite, hnew]
      rfl
    · intro r
      rw [mem_upsertWrite_records]
      constructor
      · rintro ⟨rfl | ⟨hr, -⟩, hlead⟩
        · rw [upserted_leadId, hnew] at hlead
          cases hlead
        · exact ⟨hr, hlead⟩
      · rintro ⟨hr, hlead⟩
        have hlt : r.id < st.records.next := Table.key_lt_next hr
        have hfresh := recordId_fresh hnew
        exact ⟨.inr ⟨hr, by omega⟩, hlead⟩
  have hkept : (LeadRepository.candidatesFor st leadId).filter
      (fun c => c.origin != Text.ofNat (st.recordId env call)) =
        LeadRepository.candidatesFor st leadId := by
    rw [List.filter_eq_self]
    intro c hc
    obtain ⟨r, hr, -, hc⟩ := LeadRepository.mem_candidatesFor.mp hc
    rw [LeadRepository.toCandidate_origin hc, bne_iff_ne]
    intro horigin
    have hid : r.id = st.recordId env call :=
      originKey_ofNat_injective (congrArg originKey horigin)
    have hlt : r.id < st.records.next := Table.key_lt_next hr
    have hfresh := recordId_fresh hnew
    omega
  rw [rebuilt, withIncoming, hsame, hkept]
  rfl

theorem incoming_numbered (hnew : st.recordOf env call = none) (leadId : Nat) :
    Numbered (LeadRepository.candidatesFor st leadId ++ [st.incoming env call]) := by
  refine List.pairwise_append.mpr
    ⟨LeadRepository.candidatesFor_numbered st leadId, List.pairwise_singleton _ _, ?_⟩
  intro c hc d hd
  obtain rfl : d = st.incoming env call := by simpa using hd
  obtain ⟨r, hr, -, hc⟩ := LeadRepository.mem_candidatesFor.mp hc
  rw [LeadRepository.toCandidate_origin hc]
  intro hkey
  have hid : r.id = st.recordId env call := originKey_ofNat_injective hkey
  have hlt : r.id < st.records.next := Table.key_lt_next hr
  have hfresh := recordId_fresh hnew
  omega

theorem decision_joins (hown : st.ownOf env call = none) {l : Lead}
    (hfound : l ∈ st.shortlistOf env call) (hmatches : autoMatches env (call.lead env) l = true) :
    ∃ existing result, st.decision env call = .join existing result := by
  have hbest : Merges (st.bestOf env call) := pickBest_merges hfound (by simp [hown]) hmatches
  obtain ⟨existing, result, hb, hconfidence⟩ := hbest
  have hauto : result.autoMerge = true := by
    rw [matchLeads_autoMerge (bestOf_some hb).2.2]
    exact decide_eq_true hconfidence
  exact ⟨existing, result, by simp [decision, hb, hauto]⟩

/-- A record the store has never seen merges into a stored lead only if the two match. -/
theorem matched_of_new (hnew : st.recordOf env call = none) {lead : Lead}
    (decided : (∃ result, st.decision env call = .join lead result) ∨
      st.decision env call = .refresh lead) :
    lead ∈ st.leads ∧ autoMatches env (call.lead env) lead = true := by
  rcases decided with ⟨result, hd⟩ | hd
  · obtain ⟨hbest, hauto⟩ := decision_join hd
    obtain ⟨hlead, -, hmatch⟩ := bestOf_some hbest
    exact ⟨hlead, by simp [autoMatches, hmatch, hauto]⟩
  · have hown := decision_refresh hd
    simp [ownOf, hnew] at hown

/-- The lead a new record ends up in takes its keys from the record and from one lead that
matches the record; no other lead matches the record. -/
private theorem row_keys (hderived : st.Derived) (hopen : call.blocked env = false)
    (hclear : st.unambiguous env call = true) (hs : Settles env st call validation row st')
    (hnew : st.recordOf env call = none) :
    ∃ old, KeysFrom row.toLeadPayload (call.lead env).toLeadPayload old ∧
      (old = noKeys ∨ ∃ l ∈ st.leads, l.id = row.id ∧ l.toLeadPayload = old) ∧
        ∀ l ∈ st.leads, autoMatches env (call.lead env) l = true → l.id = row.id := by
  simp only [unambiguous, hopen, Bool.false_or, Bool.and_eq_true, decide_eq_true_eq] at hclear
  obtain ⟨hone, hfound⟩ := hclear
  cases hs.lands with
  | @rebuilt lead row decided rebuilds =>
      obtain ⟨merged, graded, hmerge, -, rfl⟩ := (remerged_ok env _ _).mp rebuilds
      obtain ⟨hlead, hmatches⟩ := matched_of_new hnew decided
      rw [rebuilt_new hnew] at hmerge
      refine ⟨lead.toLeadPayload, ?_, .inr ⟨lead, hlead, rfl, rfl⟩, fun l hl hl' =>
        hone l hl lead hlead hl' hmatches⟩
      exact mergedColumns_keysFrom (incoming_numbered hnew lead.id) (hderived lead hlead).2
        (mergedColumns_some hmerge)
  | @founded merged decided merges =>
      refine ⟨noKeys, mergedColumns_singleton (mergedColumns_some merges), .inl rfl,
        fun l hl hl' => ?_⟩
      obtain ⟨existing, result, hjoin⟩ :=
        decision_joins (decision_found decided) (hfound l hl hl') hl'
      rw [decided] at hjoin
      cases hjoin

theorem Separate.settles (hsep : st.Separate) (hderived : st.Derived)
    (hopen : call.blocked env = false) (hclear : st.unambiguous env call = true)
    (hs : Settles env st call validation row st') (hnew : st.recordOf env call = none) :
    st'.Separate := by
  obtain ⟨old, hkeys, hold, honly⟩ := row_keys hderived hopen hclear hs hnew
  have hrow : ∀ l ∈ st.leads, l.id ≠ row.id →
      keysMeet row.toLeadPayload l.toLeadPayload = false := by
    intro l hl hne
    rw [← Bool.not_eq_true]
    intro hmeet
    rcases hkeys.meet hmeet with hnew | hold'
    · rw [← autoMatches_eq env] at hnew
      exact hne (honly l hl hnew)
    · rcases hold with rfl | ⟨l₀, hl₀, hid, rfl⟩
      · rw [keysMeet_noKeys] at hold'
        cases hold'
      · have hapart := hsep l₀ hl₀ l hl (by omega)
        rw [hapart] at hold'
        cases hold'
  intro l hl l' hl' hne
  rcases (hs.leads l).mp hl with rfl | ⟨hl, hid⟩ <;>
    rcases (hs.leads l').mp hl' with rfl | ⟨hl', hid'⟩
  · exact absurd rfl hne
  · exact hrow l' hl' hid'
  · rw [keysMeet_comm]
    exact hrow l hl hid
  · exact hsep l hl l' hl' hne

/-- None of the records still to come is stored. -/
def Fresh (env : Platform) (st : Store) (calls : List IngestCall) : Prop :=
  ∀ r ∈ st.records, ∀ call ∈ calls,
    ¬(r.sourceId = call.source.id ∧ r.recordKey = call.recordKey env)

theorem Fresh.settles {calls : List IngestCall} (hfresh : Fresh env st calls)
    (hapart : ∀ call' ∈ calls,
      ¬(call.source.id = call'.source.id ∧ call.recordKey env = call'.recordKey env))
    (hs : Settles env st call validation row st') : Fresh env st' calls := by
  intro r hr call' hcall'
  rcases (hs.records r).mp hr with rfl | ⟨hr, -⟩
  · rintro ⟨hsource, hkey⟩
    have hsource' := (upserted_sourceId env st call validation).symm.trans hsource
    have hkey' := (upserted_recordKey env st call validation).symm.trans hkey
    exact hapart call' hcall' ⟨hsource', hkey'⟩
  · exact hfresh r hr call' hcall'

theorem Fresh.recordOf {calls : List IngestCall} (hfresh : Fresh env st calls)
    (hcall : call ∈ calls) : st.recordOf env call = none := by
  cases hrec : st.recordOf env call with
  | none => rfl
  | some r =>
      obtain ⟨hr, hkey⟩ := recordOf_some hrec
      exact absurd hkey (hfresh r hr call hcall)

theorem Separate.collected {calls : List IngestCall} (h : Sound env st) (hderived : st.Derived)
    (hsep : st.Separate) (hcalls : FromSources st.sources calls)
    (hdistinct : calls.Pairwise fun a b =>
      ¬(a.source.id = b.source.id ∧ a.recordKey env = b.recordKey env))
    (hfresh : Fresh env st calls) (hclear : st.unambiguousRun env calls = true)
    (hrun : st.collected env calls = some st') : st'.Separate := by
  induction calls generalizing st with
  | nil =>
      obtain rfl : st = st' := by simpa [Store.collected] using hrun
      exact hsep
  | cons call calls ih =>
      obtain ⟨hcall, hcalls⟩ := List.forall_mem_cons.mp hcalls
      obtain ⟨hapart, hdistinct⟩ := List.pairwise_cons.mp hdistinct
      obtain ⟨st₁, hstep, hrest⟩ := Option.bind_eq_some_iff.mp hrun
      simp only [unambiguousRun, hstep, Option.all_some, Bool.and_eq_true] at hclear
      have hsound := h.ingested hcall.1 hstep
      have hrestFresh : Fresh env st calls := fun r hr call' hcall' =>
        hfresh r hr call' (List.mem_cons_of_mem _ hcall')
      rcases ingested_cases hstep with ⟨-, rfl⟩ | ⟨hopen, validation, row, hs⟩
      · exact ih h hderived hsep hcalls hdistinct hrestFresh hclear.2 hrest
      · have hnew := hfresh.recordOf List.mem_cons_self
        have hderived' := hderived.settles h hopen (keepsOwner_new hnew) hs hcall.1 hcall.2
        have hsep' := hsep.settles hderived hopen hclear.1 hs hnew
        exact ih hsound hderived' hsep' (by rwa [FromSources, hs.sources]) hdistinct
          (hrestFresh.settles hapart hs) hclear.2 hrest

/-- No two stored leads would be merged, however the one is matched against the other. -/
def OneLeadPerCompany (env : Platform) (st : Store) : Prop :=
  ∀ l ∈ st.leads, ∀ l' ∈ st.leads, l.id ≠ l'.id →
    keysMeet l.toLeadPayload l'.toLeadPayload = false ∧
      ∀ incoming incoming', (matchLeads env (asNormalized l incoming)
        (asNormalized l' incoming')).any MatchResult.autoMerge = false

end Store

/-- Distinct records that are never ambiguous leave one lead per company. -/
theorem leads_never_collide (env : Platform) {sources : Table Source} {calls : List IngestCall}
    (hcalls : Store.FromSources sources calls)
    (hdistinct : calls.Pairwise fun a b =>
      ¬(a.source.id = b.source.id ∧ a.recordKey env = b.recordKey env))
    (hclear : (Store.ofSources sources).unambiguousRun env calls = true) {st : Store}
    (hrun : (Store.ofSources sources).collected env calls = some st) :
    st.OneLeadPerCompany env := by
  have hempty {P : Lead → Prop} : ∀ l ∈ (Store.ofSources sources).leads, P l :=
    fun l hl => absurd hl (Table.not_mem_empty l)
  have hsep : st.Separate := Store.Separate.collected (Store.Sound.ofSources env sources)
    hempty hempty hcalls hdistinct
    (fun r hr => absurd hr (Table.not_mem_empty r)) hclear hrun
  intro l hl l' hl' hne
  have hapart := hsep l hl l' hl' hne
  refine ⟨hapart, fun incoming incoming' => ?_⟩
  rw [match_stored]
  exact hapart

/-- Records without a number in common, the third under the address of the second. -/
def joined : List IngestCall :=
  [.plain .csv 1 [("external_id", "1"), ("phone", "+358401")],
    .plain .csv 2 [("external_id", "2"), ("email", "b@x.fi")],
    .plain .csv 3 [("external_id", "3"), ("email", "b@x.fi"), ("phone", "+358402")]]

/-- The third record has the address of the second and the number of the first. -/
def bridging : List IngestCall :=
  [.plain .csv 1 [("external_id", "1"), ("phone", "+358401")],
    .plain .csv 2 [("external_id", "2"), ("email", "b@x.fi")],
    .plain .csv 3 [("external_id", "3"), ("email", "b@x.fi"), ("phone", "+358401")]]

theorem leads_never_collide_joined :
    ∃ st, (Store.ofSources (Table.empty.put .csv)).collected .ascii joined = some st ∧
      st.OneLeadPerCompany .ascii := by
  obtain ⟨st, hrun⟩ := Option.isSome_iff_exists.mp (show ((Store.ofSources
    (Table.empty.put .csv)).collected .ascii joined).isSome = true by decide +kernel)
  have hcalls : Store.FromSources (Table.empty.put .csv) joined := by
    intro call hcall
    simp only [joined, List.mem_cons, List.not_mem_nil, or_false] at hcall
    rcases hcall with rfl | rfl | rfl <;> exact ⟨Table.mem_put.mpr (.inl rfl), rfl⟩
  exact ⟨st, hrun, leads_never_collide .ascii hcalls (by decide +kernel) (by decide +kernel) hrun⟩

theorem leads_collide :
    ¬∀ (env : Platform) (sources : Table Source) (calls : List IngestCall),
      Store.FromSources sources calls →
      (calls.Pairwise fun a b =>
        ¬(a.source.id = b.source.id ∧ a.recordKey env = b.recordKey env)) →
        ∀ st, (Store.ofSources sources).collected env calls = some st →
          st.OneLeadPerCompany env := by
  intro h
  have hcollide : ((Store.ofSources (Table.empty.put .csv)).collected .ascii bridging).any
      (fun st => decide (∃ l ∈ st.leads, ∃ l' ∈ st.leads, l.id ≠ l'.id ∧
        keysMeet l.toLeadPayload l'.toLeadPayload = true)) = true := by
    decide +kernel
  obtain ⟨st, hrun, hcollide⟩ := (Option.any_eq_true _ _).mp hcollide
  obtain ⟨l, hl, l', hl', hne, hmeet⟩ := of_decide_eq_true hcollide
  have hcalls : Store.FromSources (Table.empty.put .csv) bridging := by
    intro call hcall
    simp only [bridging, List.mem_cons, List.not_mem_nil, or_false] at hcall
    rcases hcall with rfl | rfl | rfl <;> exact ⟨Table.mem_put.mpr (.inl rfl), rfl⟩
  have happart := (h .ascii _ _ hcalls (by decide +kernel) st hrun l hl l' hl' hne).1
  rw [hmeet] at happart
  cases happart

end LeadPipe
