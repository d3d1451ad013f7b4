import LeadPipe.Framework.Transition
import LeadPipe.Pipeline.Derived
import LeadPipe.Pipeline.Ownership

/-!
# What the links of a lead say about its records

A link that is not up for review says that the record belongs to the lead. That a call links a
record and that it moves a record are two writes, and the first of a pair that was linked before
comes without the second; a record that moves leaves its old link behind. Neither happens to a
record that keeps its owner.
-/

namespace LeadPipe

open Framework

namespace Store

def Linked (st : Store) (leadId recordId : Nat) (review : Bool) : Prop :=
  ∃ m ∈ st.merges, m.leadId = leadId ∧ m.sourceRecordId = recordId ∧ m.needsReview = review

instance (st : Store) (leadId recordId : Nat) (review : Bool) :
    Decidable (st.Linked leadId recordId review) :=
  inferInstanceAs (Decidable (∃ m ∈ st.merges, _))

/-- `uq_lead_merges_pair` -/
def Paired (st : Store) : Prop :=
  ∀ m ∈ st.merges, ∀ m' ∈ st.merges, m.leadId = m'.leadId →
    m.sourceRecordId = m'.sourceRecordId → m = m'

/-- The links that are not up for review are those of a lead with its records. -/
def LinksOwned (st : Store) : Prop :=
  ∀ l ∈ st.leads, ∀ r ∈ st.records, r.leadId = some l.id ↔ st.Linked l.id r.id false

instance (st : Store) : Decidable st.LinksOwned :=
  inferInstanceAs (Decidable (∀ l ∈ st.leads, ∀ r ∈ st.records, _))

/-- The lead the call attaches the record to by a link. -/
def claims (env : Platform) (st : Store) (call : IngestCall) : Option Nat :=
  match st.decision env call with
  | .join existing _ => some existing.id
  | .refresh _ => none
  | .found => some st.leads.next

/-- The lead the call puts the record up for review against. -/
def flags (env : Platform) (st : Store) (call : IngestCall) : Option Nat :=
  (st.bestOf env call).bind fun best => if best.2.autoMerge then none else some best.1.id

variable {env : Platform} {st st' v : Store} {call : IngestCall} {validation : LeadValidation}
  {row : Lead}

theorem Linked.congr (h : st'.merges = st.merges) {leadId recordId : Nat} {review : Bool} :
    st'.Linked leadId recordId review ↔ st.Linked leadId recordId review := by
  unfold Linked
  rw [h]

theorem Paired.congr (hpaired : st.Paired) (h : st'.merges = st.merges) : st'.Paired := by
  unfold Paired
  rw [h]
  exact hpaired

theorem Paired.review (hpaired : st.Paired) {leadId recordId : Nat} {a b : Bool}
    (ha : st.Linked leadId recordId a) (hb : st.Linked leadId recordId b) : a = b := by
  obtain ⟨m, hm, hlead, hrecord, rfl⟩ := ha
  obtain ⟨m', hm', hlead', hrecord', rfl⟩ := hb
  rw [hpaired m hm m' hm' (hlead.trans hlead'.symm) (hrecord.trans hrecord'.symm)]

private theorem linkBetween_absent {leadId recordId : Nat}
    (h : LeadRepository.linkBetween st leadId recordId = none) {m : LeadMerge}
    (hm : m ∈ st.merges) : ¬(m.leadId = leadId ∧ m.sourceRecordId = recordId) := by
  intro hpair
  have hmem : m ∈ st.merges.select
      fun m => m.leadId == leadId && m.sourceRecordId == recordId := by
    rw [Table.mem_select]
    simpa using And.intro hm hpair
  rw [List.head?_eq_none_iff.mp h] at hmem
  cases hmem

section Link

variable (hv : v.merges = st.merges) (hpaired : st.Paired) (leadId recordId : Nat) (rule : Text)
  (confidence : ℚ) (review claim : Bool)
include hv hpaired

private theorem exists_link :
    ∃ link : LeadMerge, link.leadId = leadId ∧ link.sourceRecordId = recordId ∧
      link.needsReview = review ∧ ∀ m, m ∈ (Session.replay
        (st.linkWrites leadId recordId rule confidence review claim) v).merges ↔
          m = link ∨ (m ∈ st.merges ∧ ¬(m.leadId = leadId ∧ m.sourceRecordId = recordId)) := by
  unfold linkWrites
  cases hl : LeadRepository.linkBetween st leadId recordId with
  | some existing =>
      obtain ⟨hmem, hlead, hrecord⟩ := LeadRepository.linkBetween_some hl
      refine ⟨{ existing with rule, confidence, needsReview := review }, hlead, hrecord, rfl,
        fun m => ?_⟩
      change m ∈ v.merges.replace _ ↔ _
      rw [hv, Table.mem_replace]
      constructor
      · rintro (⟨rfl, -⟩ | ⟨hm, hne⟩)
        · exact .inl rfl
        · refine .inr ⟨hm, ?_⟩
          rintro ⟨hlead', hrecord'⟩
          have hsame : m = existing := hpaired m hm existing hmem (hlead'.trans hlead.symm)
            (hrecord'.trans hrecord.symm)
          exact hne (by rw [hsame]; rfl)
      · rintro (rfl | ⟨hm, hne⟩)
        · exact .inl ⟨rfl, existing, hmem, rfl⟩
        · refine .inr ⟨hm, fun hkey => ?_⟩
          have hsame : m = existing := Table.eq_of_key hm hmem hkey
          exact hne (by rw [hsame]; exact ⟨hlead, hrecord⟩)
  | none =>
      refine ⟨⟨st.merges.next, leadId, recordId, rule, confidence, review⟩, rfl, rfl, rfl,
        fun m => ?_⟩
      have hput : m ∈ v.merges.put
          ⟨st.merges.next, leadId, recordId, rule, confidence, review⟩ ↔
          m = ⟨st.merges.next, leadId, recordId, rule, confidence, review⟩ ∨
            (m ∈ st.merges ∧ ¬(m.leadId = leadId ∧ m.sourceRecordId = recordId)) := by
        rw [hv, Table.mem_put]
        refine or_congr Iff.rfl (and_congr_right fun hm => ?_)
        have hlt : m.id < st.merges.next := Table.key_lt_next hm
        exact iff_of_true (by simp only [key_merge]; omega) (linkBetween_absent hl hm)
      cases claim <;> exact hput

private theorem paired_link : (Session.replay
    (st.linkWrites leadId recordId rule confidence review claim) v).Paired := by
  obtain ⟨link, hlead, hrecord, -, hmem⟩ :=
    exists_link hv hpaired leadId recordId rule confidence review claim
  intro m hm m' hm' hl hr
  rcases (hmem m).mp hm with rfl | ⟨hold, hne⟩ <;> rcases (hmem m').mp hm' with rfl | ⟨hold', hne'⟩
  · rfl
  · exact absurd ⟨hl.symm.trans hlead, hr.symm.trans hrecord⟩ hne'
  · exact absurd ⟨hl.trans hlead, hr.trans hrecord⟩ hne
  · exact hpaired m hold m' hold' hl hr

private theorem linked_link {l r : Nat} {b : Bool} : (Session.replay
    (st.linkWrites leadId recordId rule confidence review claim) v).Linked l r b ↔
      if l = leadId ∧ r = recordId then b = review else st.Linked l r b := by
  obtain ⟨link, hlead, hrecord, hreview, hmem⟩ :=
    exists_link hv hpaired leadId recordId rule confidence review claim
  simp only [Linked, hmem]
  split
  · rename_i hpair
    constructor
    · rintro ⟨m, rfl | ⟨-, hne⟩, hl, hr, rfl⟩
      · exact hreview
      · exact absurd ⟨hl.trans hpair.1, hr.trans hpair.2⟩ hne
    · rintro rfl
      exact ⟨link, .inl rfl, hlead.trans hpair.1.symm, hrecord.trans hpair.2.symm, hreview⟩
  · rename_i hpair
    constructor
    · rintro ⟨m, rfl | ⟨hm, -⟩, rfl, rfl, hb⟩
      · exact absurd ⟨hlead, hrecord⟩ hpair
      · exact ⟨m, hm, rfl, rfl, hb⟩
    · rintro ⟨m, hm, rfl, rfl, hb⟩
      exact ⟨m, .inr ⟨hm, hpair⟩, rfl, rfl, hb⟩

end Link

/-- The links of the call's record, the one it is put up for review by written last. -/
def LinksAfter (env : Platform) (st : Store) (call : IngestCall) (st' : Store) : Prop :=
  st'.Paired ∧ ∀ l r b, st'.Linked l r b ↔
    if r = st.recordId env call ∧ st.flags env call = some l then b = true
    else if r = st.recordId env call ∧ st.claims env call = some l then b = false
    else st.Linked l r b

private theorem linked_places {ws : List Write} (hpaired : st.Paired)
    (hplaces : Places env st call validation ws) :
    let v := Session.replay (st.upsertWrite env call validation :: ws) st
    v.Paired ∧ ∀ l r b, v.Linked l r b ↔
      if r = st.recordId env call ∧ st.claims env call = some l then b = false
      else st.Linked l r b := by
  have hmerges := upsertWrite_merges env st call validation
  cases hplaces with
  | @join existing row result decided rebuilds =>
      have hv : ((Write.updateLead row).apply
          ((st.upsertWrite env call validation).apply st)).merges = st.merges := hmerges
      refine ⟨paired_link hv hpaired _ _ _ _ _ _, fun l r b => ?_⟩
      refine (linked_link hv hpaired _ _ _ _ _ _).trans ?_
      simp only [claims, decided, Option.some.injEq, and_comm, eq_comm]
  | @refresh own row decided rebuilds =>
      have hv : ((Write.updateLead row).apply
          ((st.upsertWrite env call validation).apply st)).merges = st.merges := hmerges
      refine ⟨hpaired.congr hv, fun l r b => ?_⟩
      refine (Linked.congr hv).trans ?_
      simp [claims, decided]
  | @found merged decided merges =>
      have hv : ((Write.insertLead (st.founder env merged validation)).apply
          ((st.upsertWrite env call validation).apply st)).merges = st.merges := hmerges
      refine ⟨paired_link hv hpaired _ _ _ _ _ _, fun l r b => ?_⟩
      refine (linked_link hv hpaired _ _ _ _ _ _).trans ?_
      simp only [claims, decided, Option.some.injEq, and_comm, eq_comm]

theorem linksAfter_ingests {ws : List Write} (hpaired : st.Paired) (hi : Ingests env st call ws)
    (hopen : call.blocked env = false) : st.LinksAfter env call (Session.replay ws st) := by
  cases hi with
  | suppressed blocked => simp [blocked] at hopen
  | @placed validation placed flagged unblocked validates places hflags =>
      obtain ⟨hpaired', hlinked⟩ := linked_places hpaired places
      rw [← List.cons_append, Session.replay_append, hflags]
      unfold flagWrites
      cases hb : st.bestOf env call with
      | none => exact ⟨hpaired', fun l r b => by simpa [flags, hb] using hlinked l r b⟩
      | some best =>
          obtain ⟨existing, result⟩ := best
          by_cases hauto : result.autoMerge = true
          · simp only [hauto, if_true]
            exact ⟨hpaired', fun l r b => by simpa [flags, hb, hauto] using hlinked l r b⟩
          · simp only [hauto, Bool.false_eq_true, if_false]
            refine ⟨paired_link rfl hpaired' _ _ _ _ _ _, fun l r b => ?_⟩
            rw [linked_link rfl hpaired', hlinked]
            simp only [flags, hb, hauto, Option.bind_some, Bool.false_eq_true, if_false,
              Option.some.injEq, and_comm, eq_comm]

private theorem linked_before (h : Sound env st) (howned : st.LinksOwned)
    (hs : Settles env st call validation row st') {l : Lead} (hl : l ∈ st'.leads)
    {r : SourceRecord} (hr : r ∈ st.records) :
    r.leadId = some l.id ↔ st.Linked l.id r.id false := by
  have hold {l₀ : Lead} (hl₀ : l₀ ∈ st.leads) (hsame : l₀.id = l.id) :
      r.leadId = some l.id ↔ st.Linked l.id r.id false := by
    rw [← hsame]
    exact howned l₀ hl₀ r hr
  rcases (hs.leads l).mp hl with rfl | ⟨hl, -⟩
  · rcases hs.lands.lead.2 with ⟨lead, hlead, hsame⟩ | ⟨-, hnext⟩
    · exact hold hlead hsame
    · constructor
      · intro hown
        obtain ⟨l₀, hl₀, hlead⟩ := h.owned r hr
        have hlt : l₀.id < st.leads.next := Table.key_lt_next hl₀
        have hsame : l₀.id = l.id := Option.some.inj (hlead.symm.trans hown)
        omega
      · rintro ⟨m, hm, hlead, -⟩
        have hlt := h.linkedLead m hm
        omega
  · exact hold hl rfl

/-- A record is never put up for review against the lead it ends up with. -/
private theorem flags_ne_row (hs : Settles env st call validation row st') :
    st.flags env call ≠ some row.id := by
  intro hflag
  obtain ⟨⟨existing, result⟩, hbest, hreview⟩ := Option.bind_eq_some_iff.mp hflag
  have hauto : result.autoMerge = false := by
    cases ha : result.autoMerge <;> simp [ha] at hreview ⊢
  have hid : existing.id = row.id := by simpa [hauto] using hreview
  obtain ⟨hexisting, hexclude, -⟩ := bestOf_some hbest
  have halone : st.decision env call = st.alone env call := by simp [decision, hbest, hauto]
  have htarget := hs.lands.lead.1
  unfold target at htarget
  rw [halone, alone] at htarget
  cases hown : st.ownOf env call with
  | some own =>
      simp only [hown] at htarget
      exact hexclude (by simp [hown, hid, htarget])
  | none =>
      have hlt : existing.id < st.leads.next := Table.key_lt_next hexisting
      simp only [hown] at htarget
      omega

/-- The record of a call that moves nothing is linked to the lead it belongs to and, for good, to
no other. -/
private theorem linked_own (h : Sound env st) (howned : st.LinksOwned)
    (hopen : call.blocked env = false) (hkeeps : st.keepsOwner env call = true)
    (hs : Settles env st call validation row st') (hlinks : st.LinksAfter env call st')
    {l : Lead} (hl : l ∈ st'.leads) :
    st'.Linked l.id (st.recordId env call) false ↔ l.id = row.id := by
  obtain ⟨-, hbefore⟩ := attached_of_keepsOwner h hopen hkeeps hs
  have hflags := flags_ne_row hs
  have htarget := hs.lands.lead.1
  rw [hlinks.2]
  cases hrec : st.recordOf env call with
  | none =>
      have hclaims : st.claims env call = some row.id := by
        unfold claims target at *
        cases hd : st.decision env call with
        | join existing result => simpa [hd] using htarget.symm
        | refresh own =>
            have hown := decision_refresh hd
            simp [ownOf, hrec] at hown
        | found => simpa [hd] using htarget.symm
      have hunlinked : ¬st.Linked l.id (st.recordId env call) false := by
        rintro ⟨m, hm, -, hrecord, -⟩
        have hlt := h.linkedRecord m hm
        have hfresh := recordId_fresh hrec
        omega
      by_cases hid : l.id = row.id
      · simp [hid, hflags, hclaims]
      · simp [hid, hclaims, Ne.symm hid, hunlinked]
  | some r =>
      have hclaims : st.claims env call = none := by
        unfold claims keepsOwner at *
        have hown : (st.ownOf env call).isNone = false := by
          rw [← Bool.not_eq_true, Option.isNone_iff_eq_none]
          intro hnone
          have hnew := ownOf_none h hnone
          simp [hrec] at hnew
        cases hd : st.decision env call with
        | join existing result => simp [hd, hopen, hown] at hkeeps
        | refresh own => rfl
        | found => simp [decision_found hd] at hown
      have hlinked := linked_before h howned hs hl (recordOf_some hrec).1
      rw [hbefore r hrec, ← recordId_eq hrec] at hlinked
      by_cases hid : l.id = row.id
      · simpa [hid, hflags, hclaims] using hlinked
      · have hunlinked : ¬st.Linked l.id (st.recordId env call) false := by
          simpa [Ne.symm hid] using hlinked
        simp [hid, hclaims, hunlinked]

/-- A call that leaves the record with its owner keeps the links exact, and only such a call. -/
theorem LinksOwned.step (h : Sound env st) (howned : st.LinksOwned)
    (hopen : call.blocked env = false) (hs : Settles env st call validation row st')
    (hlinks : st.LinksAfter env call st') :
    st'.LinksOwned ↔ st.keepsOwner env call = true := by
  have hwritten := (hs.records _).mpr (.inl rfl)
  have hid : ((st.upserted env call validation).ownedBy (st.attached env call)).id =
      st.recordId env call := upserted_id env st call validation
  constructor
  · intro howned'
    rw [keepsOwner, hopen, Bool.false_or]
    cases hd : st.decision env call with
    | refresh own => rfl
    | found => rfl
    | join existing result =>
        rw [Option.isNone_iff_eq_none, Option.eq_none_iff_forall_ne_some]
        intro own hown
        obtain ⟨hbest, hauto⟩ := decision_join hd
        obtain ⟨hexisting, hexclude, -⟩ := bestOf_some hbest
        obtain ⟨hownMem, hcurrent⟩ := ownOf_some hown
        obtain ⟨r, hrec, hr⟩ := Option.bind_eq_some_iff.mp hcurrent
        have hne : own.id ≠ existing.id := by simpa [hown] using hexclude
        have hflags : st.flags env call = none := by simp [flags, hbest, hauto]
        have hclaims : st.claims env call = some existing.id := by simp [claims, hd]
        -- the record is linked for good to both leads, and it can belong to one only
        have hboth : ∀ l ∈ st.leads, st'.Linked l.id (st.recordId env call) false →
            st.attached env call = some l.id := by
          intro l hl hlinked
          obtain ⟨l', hl', hsame⟩ := hs.lead_survives hl
          rw [← hsame, ← hid] at hlinked
          rw [← hsame]
          exact (howned' l' hl' _ hwritten).mpr hlinked
        have hjoined : st'.Linked existing.id (st.recordId env call) false := by
          rw [hlinks.2]
          simp [hflags, hclaims]
        have hleft : st'.Linked own.id (st.recordId env call) false := by
          rw [hlinks.2]
          simp only [hflags, hclaims, Option.some.injEq, reduceCtorEq, and_false, if_false,
            Ne.symm hne]
          rw [recordId_eq hrec]
          exact (howned own hownMem r (recordOf_some hrec).1).mp hr
        have hsame := (hboth own hownMem hleft).symm.trans (hboth existing hexisting hjoined)
        exact hne (Option.some.inj hsame)
  · intro hkeeps l hl r hr
    rcases (hs.records r).mp hr with rfl | ⟨hr, hother⟩
    · obtain ⟨hattached, -⟩ := attached_of_keepsOwner h hopen hkeeps hs
      rw [hid, linked_own h howned hopen hkeeps hs hlinks hl]
      change st.attached env call = some l.id ↔ _
      rw [hattached, Option.some.injEq, eq_comm]
    · rw [linked_before h howned hs hl hr, hlinks.2, if_neg (by simp [hother]),
        if_neg (by simp [hother])]

theorem Sound.deleteLead (h : Sound env st) (leadId : Nat) : Sound env (st.deleteLead leadId) where
  unique r hr r' hr' := h.unique r (Table.mem_erase.mp hr).1 r' (Table.mem_erase.mp hr').1
  sourced r hr := h.sourced r (Table.mem_erase.mp hr).1
  owned := by
    intro r hr
    obtain ⟨hr, hkept⟩ := Table.mem_erase.mp hr
    obtain ⟨l, hl, hlead⟩ := h.owned r hr
    have hne : l.id ≠ leadId := by simpa [hlead] using hkept
    exact ⟨l, Table.mem_erase.mpr ⟨hl, by simpa using hne⟩, hlead⟩
  linkedLead m hm := h.linkedLead m (Table.mem_erase.mp hm).1
  linkedRecord m hm := h.linkedRecord m (Table.mem_erase.mp hm).1
  gradable r hr := h.gradable r (Table.mem_erase.mp hr).1

theorem Paired.deleteLead (h : st.Paired) (leadId : Nat) : (st.deleteLead leadId).Paired :=
  fun m hm m' hm' => h m (Table.mem_erase.mp hm).1 m' (Table.mem_erase.mp hm').1

theorem LinksOwned.deleteLead (h : st.LinksOwned) (leadId : Nat) :
    (st.deleteLead leadId).LinksOwned := by
  intro l hl r hr
  obtain ⟨hl, hlead⟩ := Table.mem_erase.mp hl
  obtain ⟨hr, hkept⟩ := Table.mem_erase.mp hr
  rw [h l hl r hr]
  constructor
  · rintro ⟨m, hm, hm₁, hm₂, hreview⟩
    have hfind : st.records.find? r.id = some r := Table.find?_eq_some.mpr ⟨hr, rfl⟩
    exact ⟨m, Table.mem_erase.mpr ⟨hm, by simp [hm₁, hm₂, hfind, hlead, hkept]⟩, hm₁, hm₂, hreview⟩
  · rintro ⟨m, hm, hlinked⟩
    exact ⟨m, (Table.mem_erase.mp hm).1, hlinked⟩

/-- The records that make up a lead, as its links tell them. -/
structure ExactProvenance (st : Store) : Prop where
  owned : st.LinksOwned
  listed : ∀ l ∈ st.leads,
    (((LeadRepository.provenance st l.id).filter fun p => !p.needsReview).map
      LeadRepository.Provenance.sourceRecordId).Perm
        ((st.records.select fun r => r.leadId == some l.id).map SourceRecord.id)
  flagged : ∀ l ∈ st.leads, ∀ r ∈ st.records, st.Linked l.id r.id true → r.leadId ≠ some l.id

private theorem toProvenance_some {m : LeadMerge} {p : LeadRepository.Provenance}
    (h : LeadRepository.toProvenance st m = some p) :
    p.sourceRecordId = m.sourceRecordId ∧ p.needsReview = m.needsReview ∧
      ∃ r ∈ st.records, r.id = m.sourceRecordId := by
  obtain ⟨r, hfind, hsource⟩ := Option.bind_eq_some_iff.mp h
  obtain ⟨source, -, rfl⟩ := Option.map_eq_some_iff.mp hsource
  obtain ⟨hr, hid⟩ := Table.find?_eq_some.mp hfind
  exact ⟨hid, rfl, r, hr, hid⟩

private theorem toProvenance_linked (h : Sound env st) {m : LeadMerge} {r : SourceRecord}
    (hr : r ∈ st.records) (hrecord : m.sourceRecordId = r.id) :
    ∃ p, LeadRepository.toProvenance st m = some p ∧ p.sourceRecordId = r.id ∧
      p.needsReview = m.needsReview := by
  obtain ⟨source, hsource, hid⟩ := h.sourced r hr
  have hfind : st.records.find? m.sourceRecordId = some r :=
    Table.find?_eq_some.mpr ⟨hr, hrecord.symm⟩
  have hfindSource : st.sources.find? r.sourceId = some source :=
    Table.find?_eq_some.mpr ⟨hsource, hid⟩
  refine ⟨⟨source.name, r.id, r.sourceUrl, m.rule, m.confidence, m.needsReview⟩, ?_, rfl, rfl⟩
  simp only [LeadRepository.toProvenance, hfind, Option.bind_some, hfindSource, Option.map_some]

private theorem provenance_nodup (hpaired : st.Paired) (leadId : Nat) :
    ((LeadRepository.provenance st leadId).map
      LeadRepository.Provenance.sourceRecordId).Nodup := by
  have hsorted := st.merges.select_sorted fun m => m.leadId == leadId
  refine List.pairwise_map.mpr (List.pairwise_filterMap.mpr (hsorted.imp_of_mem ?_))
  intro m m' hm hm' hlt p hp p' hp' hsame
  rw [Table.mem_select] at hm hm'
  rw [(toProvenance_some hp).1, (toProvenance_some hp').1] at hsame
  have heq : m = m' := hpaired m hm.1 m' hm'.1
    ((beq_iff_eq.mp hm.2).trans (beq_iff_eq.mp hm'.2).symm) hsame
  rw [heq] at hlt
  exact lt_irrefl _ hlt

theorem LinksOwned.exact (h : Sound env st) (hpaired : st.Paired) (howned : st.LinksOwned) :
    st.ExactProvenance where
  owned := howned
  listed := by
    intro l hl
    have hentries : (((LeadRepository.provenance st l.id).filter fun p => !p.needsReview).map
        LeadRepository.Provenance.sourceRecordId).Nodup :=
      (provenance_nodup hpaired l.id).sublist (List.filter_sublist.map _)
    have hrecords : ((st.records.select fun r => r.leadId == some l.id).map
        SourceRecord.id).Nodup :=
      List.pairwise_map.mpr ((st.records.select_sorted _).imp fun hlt => Nat.ne_of_lt hlt)
    refine (List.perm_ext_iff_of_nodup hentries hrecords).mpr fun id => ?_
    simp only [List.mem_map, List.mem_filter, Table.mem_select, beq_iff_eq,
      LeadRepository.provenance, List.mem_filterMap, Bool.not_eq_true']
    constructor
    · rintro ⟨p, ⟨⟨m, ⟨hm, hlead⟩, hp⟩, hreview⟩, rfl⟩
      obtain ⟨hrecord, hsame, r, hr, hid⟩ := toProvenance_some hp
      have hlinked : st.Linked l.id r.id false := ⟨m, hm, hlead, hid.symm, hsame.symm.trans hreview⟩
      exact ⟨r, ⟨hr, (howned l hl r hr).mpr hlinked⟩, hid.trans hrecord.symm⟩
    · rintro ⟨r, ⟨hr, hlead⟩, rfl⟩
      obtain ⟨m, hm, hm₁, hm₂, hreview⟩ := (howned l hl r hr).mp hlead
      obtain ⟨p, hp, hrecord, hsame⟩ := toProvenance_linked h hr hm₂
      exact ⟨p, ⟨⟨m, ⟨hm, hm₁⟩, hp⟩, hsame.trans hreview⟩, hrecord⟩
  flagged := by
    intro l hl r hr hflagged hlead
    have hlinked := (howned l hl r hr).mp hlead
    exact absurd (hpaired.review hflagged hlinked) (by decide)

end Store

/-- One record is ingested or one lead is deleted. -/
inductive LeadEvent where
  | ingest (call : IngestCall)
  | delete (leadId : Nat)

namespace LeadEvent

variable (env : Platform) (st : Store)

def perform : LeadEvent → Store
  | ingest call => (LeadPipe.ingest env call st.session).2.view
  | delete leadId => st.deleteLead leadId

/-- The source of a call has its row, and the call raises nothing. -/
def Completes : LeadEvent → Prop
  | ingest call => call.source ∈ st.sources ∧ (LeadPipe.ingest env call st.session).1.isOk = true
  | delete _ => True

/-- The event merges no record that belongs to a lead into another lead. -/
def KeepsOwner : LeadEvent → Prop
  | ingest call => st.keepsOwner env call = true
  | delete _ => True

instance (event : LeadEvent) : Decidable (event.Completes env st) :=
  match event with
  | ingest call => inferInstanceAs (Decidable (call.source ∈ st.sources.rows ∧
      (LeadPipe.ingest env call st.session).1.isOk = true))
  | delete _ => .isTrue trivial

instance (event : LeadEvent) : Decidable (event.KeepsOwner env st) :=
  match event with
  | ingest call => inferInstanceAs (Decidable (st.keepsOwner env call = true))
  | delete _ => .isTrue trivial

variable {env st} {sources : Table Source} {events : List LeadEvent}

/-- The tables are sound, and the links are those of the leads with their records. -/
private structure Linking (env : Platform) (st : Store) : Prop where
  sound : st.Sound env
  paired : st.Paired
  owned : st.LinksOwned

private theorem ingested_perform {call : IngestCall}
    (h : Completes env st (.ingest call)) :
    st.ingested env call = some (perform env st (.ingest call)) := by
  obtain ⟨-, hok⟩ := h
  unfold Store.ingested perform
  rcases hrun : LeadPipe.ingest env call st.session with ⟨e | a, s⟩
  · rw [hrun] at hok
    cases hok
  · simp only [hrun]

/-- One event: the tables stay sound, and the links stay exact just when it keeps the owner. -/
private theorem Linking.step (h : Linking env st) {event : LeadEvent}
    (hdone : event.Completes env st) :
    (perform env st event).Sound env ∧ (perform env st event).Paired ∧
      ((perform env st event).LinksOwned ↔ event.KeepsOwner env st) := by
  cases event with
  | delete leadId =>
      exact ⟨h.sound.deleteLead leadId, h.paired.deleteLead leadId,
        fun _ => trivial, fun _ => h.owned.deleteLead leadId⟩
  | ingest call =>
      have hrun := ingested_perform hdone
      refine ⟨h.sound.ingested hdone.1 hrun, ?_⟩
      rcases Store.ingested_cases hrun with ⟨hblocked, hsame⟩ | ⟨hopen, validation, row, hs⟩
      · rw [hsame]
        exact ⟨h.paired, fun _ => by simp [KeepsOwner, Store.keepsOwner, hblocked], fun _ => h.owned⟩
      · obtain ⟨ws, hi, hview⟩ := Store.ingested_writes hrun
        have hlinks := Store.linksAfter_ingests h.paired hi hopen
        rw [← hview] at hlinks
        exact ⟨hlinks.1, h.owned.step h.sound hopen hs hlinks⟩

private theorem Linking.run (h : Linking env st)
    (hdone : Always (perform env) (fun st event => event.Completes env st) st events) :
    (∀ done, done <+: events → (execute (perform env) st done).ExactProvenance) ↔
      Always (perform env) (fun st event => event.KeepsOwner env st) st events := by
  induction events generalizing st with
  | nil =>
      refine iff_of_true (fun done hprefix => ?_) trivial
      rw [List.prefix_nil.mp hprefix]
      exact h.owned.exact h.sound h.paired
  | cons event events ih =>
      obtain ⟨hsound, hpaired, howned⟩ := h.step hdone.1
      constructor
      · intro hexact
        have hkept := (hexact [event] (List.prefix_append [event] events)).owned
        refine ⟨howned.mp hkept, (ih ⟨hsound, hpaired, hkept⟩ hdone.2).mp fun done hprefix => ?_⟩
        exact hexact (event :: done) (List.prefix_cons_inj event |>.mpr hprefix)
      · rintro ⟨hkeeps, hrest⟩ done hprefix
        cases done with
        | nil => exact h.owned.exact h.sound h.paired
        | cons first done =>
            obtain ⟨rfl, hrestPrefix⟩ := List.cons_prefix_cons.mp hprefix
            have hnext : Linking env (perform env st first) :=
              ⟨hsound, hpaired, howned.mpr hkeeps⟩
            exact (ih hnext hdone.2).mpr hrest done hrestPrefix

end LeadEvent

/-- In a run from empty tables the links tell exactly which records make up which lead, at every
moment, if and only if no call of the run takes a record away from its lead. -/
theorem provenance_is_exact (env : Platform) {sources : Table Source} {events : List LeadEvent}
    (hdone : Always (LeadEvent.perform env) (fun st event => event.Completes env st)
      (.ofSources sources) events) :
    (∀ done, done <+: events →
      (execute (LeadEvent.perform env) (.ofSources sources) done).ExactProvenance) ↔
      Always (LeadEvent.perform env) (fun st event => event.KeepsOwner env st)
        (.ofSources sources) events := by
  have hempty : LeadEvent.Linking env (.ofSources sources) :=
    ⟨Store.Sound.ofSources env sources, fun m hm => absurd hm (Table.not_mem_empty m),
      fun l hl => absurd hl (Table.not_mem_empty l)⟩
  exact hempty.run hdone

/-- The second of two companies is up for review against the first, comes back with the given
e-mail address, and then the first lead is deleted. -/
def recollectedAndDeleted (email : String) : List LeadEvent :=
  [.ingest (.plain .csv 1 [("external_id", "1"), ("company_name", "Acme"), ("city", "Oulu"),
      ("email", "a@x.fi")]),
    .ingest (.plain .csv 2 [("external_id", "2"), ("company_name", "Acme"), ("city", "Oulu"),
      ("email", "b@x.fi")]),
    .ingest (recollected email),
    .delete 1]

theorem provenance_is_exact_refreshed :
    (execute (LeadEvent.perform .ascii) (.ofSources (Table.empty.put .csv))
      (recollectedAndDeleted "b@x.fi")).ExactProvenance :=
  (provenance_is_exact .ascii (by decide +kernel)).mpr (by decide +kernel) _
    (List.prefix_refl _)

/-- The second company comes back under the address of the first: the link between the two is no
longer up for review, and the record still belongs to the second lead. -/
theorem provenance_is_stale :
    ¬∀ (env : Platform) (sources : Table Source) (events : List LeadEvent),
      Always (LeadEvent.perform env) (fun st event => event.Completes env st)
        (.ofSources sources) events →
      (execute (LeadEvent.perform env) (.ofSources sources) events).ExactProvenance := by
  intro h
  have hstale : ¬(execute (LeadEvent.perform .ascii) (.ofSources (Table.empty.put .csv))
      ((recollectedAndDeleted "a@x.fi").take 3)).LinksOwned := by
    decide +kernel
  exact hstale (h .ascii (Table.empty.put .csv) ((recollectedAndDeleted "a@x.fi").take 3)
    (by decide +kernel)).owned

end LeadPipe
