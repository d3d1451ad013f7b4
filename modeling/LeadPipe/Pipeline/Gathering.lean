import LeadPipe.Pipeline.Collections
import LeadPipe.Pipeline.Evidence

/-!
# Runs that gather their records

A record joins one lead. When everything it shares a key with belongs to that lead already, and
the lookup finds it, stored records that share a key have one lead. A run in which this goes well
at every record leaves the classes of the records that are connected by shared keys.
-/

namespace LeadPipe

open Framework

variable {env : Platform} {st st' : Store} {call : IngestCall} {validation : LeadValidation}
  {row : Lead}

/-- What is stored of a record, whichever collection stores it. -/
structure Entry where
  recordKey : Text
  payload : LeadPayload
  collectedAt : Instant
  deriving DecidableEq

def SourceRecord.entry (r : SourceRecord) : Entry := ⟨r.recordKey, r.normalized, r.collectedAt⟩

namespace IngestCall

variable (env : Platform) (call : IngestCall)

def graded : Bool := (validateLead env (call.lead env)).isOk

def entry : Entry :=
  ⟨call.recordKey env, (call.lead env).toLeadPayload, (call.lead env).collectedAt⟩

/-- What the call stores; a suppressed record and one whose grading raises are not stored. -/
def filed : Option Entry :=
  if call.blocked env || !call.graded env then none else some (call.entry env)

end IngestCall

namespace Store

/-- What is stored of the records of a source, in the order in which they came. -/
def entriesOf (st : Store) (sourceId : Nat) : List Entry :=
  (st.records.select fun r => r.sourceId == sourceId).map SourceRecord.entry

/-- The stored records that share a key with the record of the call belong to one lead, which
shows such a key and is among the leads the lookup returns. -/
def gathered (env : Platform) (st : Store) (call : IngestCall) : Bool :=
  (call.filed env).isNone ||
    decide (∀ r ∈ st.records, keysMeet (call.lead env).toLeadPayload r.normalized = true →
      (∀ r' ∈ st.records, keysMeet (call.lead env).toLeadPayload r'.normalized = true →
        r'.leadId = r.leadId) ∧
      ∀ l ∈ st.leads, r.leadId = some l.id →
        autoMatches env (call.lead env) l = true ∧ l ∈ st.shortlistOf env call)

/-- Records that share a key belong to one lead, records of one lead are connected by shared
keys, and lead rows are the merge of their records. -/
structure Gathered (env : Platform) (st : Store) : Prop where
  sound : Sound env st
  evident : st.Evident
  closed : Closed {r | r ∈ st.records} SourceRecord.leadId SourceRecord.Meets
  derived : st.Derived

theorem Gathered.ofSources (env : Platform) (sources : Table Source) :
    Gathered env (ofSources sources) where
  sound := Sound.ofSources env sources
  evident := ⟨fun r hr => absurd hr (Table.not_mem_empty r),
    fun l hl => absurd hl (Table.not_mem_empty l), fun r hr => absurd hr (Table.not_mem_empty r)⟩
  closed := fun r hr => absurd hr (Table.not_mem_empty r)
  derived := fun l hl => absurd hl (Table.not_mem_empty l)

theorem Sound.outcome (h : Sound env st) (ho : Outcome env st call st') :
    (call.filed env = none ∧ st' = st) ∨
      (call.filed env = some (call.entry env) ∧ call.blocked env = false ∧
        ∃ validation row, Settles env st call validation row st') := by
  unfold IngestCall.filed IngestCall.graded
  cases ho with
  | suppressed hblocked hsame => exact .inl ⟨by simp [hblocked], hsame⟩
  | settled hopen hs =>
      exact .inr ⟨by simp [hopen, hs.validates, Except.isOk, Except.toBool], hopen, _, _, hs⟩
  | raised ha hview =>
      cases ha with
      | ungraded hopen stuck =>
          exact .inl ⟨by simp [stuck, Except.isOk, Except.toBool], hview⟩
      | @unmerged validation target e hopen hvalidates decided stuck =>
          obtain ⟨rebuilt, hrow⟩ := h.rebuilds hvalidates target
          rw [hrow] at stuck
          cases stuck

theorem records_new (h : Sound env st) (hopen : call.blocked env = false)
    (hs : Settles env st call validation row st') (hnew : st.recordOf env call = none)
    (r : SourceRecord) : r ∈ st'.records ↔
      r = (st.upserted env call validation).ownedBy (some row.id) ∨ r ∈ st.records := by
  obtain ⟨hattached, -⟩ := attached_of_keepsOwner h hopen (keepsOwner_new hnew) hs
  rw [hs.records, hattached]
  refine or_congr_right ⟨fun hr => hr.1, fun hr => ⟨hr, ?_⟩⟩
  have hlt : r.id < st.records.next := Table.key_lt_next hr
  have hfresh := recordId_fresh hnew
  omega

theorem entriesOf_settles (h : Sound env st) (hopen : call.blocked env = false)
    (hs : Settles env st call validation row st') (hnew : st.recordOf env call = none)
    (sourceId : Nat) : st'.entriesOf sourceId =
      st.entriesOf sourceId ++ if call.source.id = sourceId then [call.entry env] else [] := by
  have hrow : ((st.upserted env call validation).ownedBy (some row.id)).entry =
      call.entry env := by
    have hkey := upserted_recordKey env st call validation
    simp only [SourceRecord.entry, SourceRecord.ownedBy, hkey]
    rfl
  have hlast : ∀ r ∈ st.records, key r <
      key ((st.upserted env call validation).ownedBy (some row.id)) := by
    intro r hr
    have hlt : r.id < st.records.next := Table.key_lt_next hr
    have hid := upserted_id env st call validation
    have hfresh := recordId_fresh hnew
    change r.id < (st.upserted env call validation).id
    omega
  have hsource : ((st.upserted env call validation).ownedBy (some row.id)).sourceId =
      call.source.id := upserted_sourceId env st call validation
  unfold entriesOf
  rw [Table.select_snoc (records_new h hopen hs hnew) hlast, List.map_append]
  simp only [hsource, beq_iff_eq]
  split
  · rw [List.map_singleton, hrow]
  · rfl

private theorem meets_row (hg : Gathered env st) (hfiled : call.filed env = some (call.entry env))
    (hclear : st.gathered env call = true) (hs : Settles env st call validation row st')
    (hnew : st.recordOf env call = none) {r : SourceRecord} (hr : r ∈ st.records)
    (hmeet : keysMeet (call.lead env).toLeadPayload r.normalized = true) :
    r.leadId = some row.id := by
  simp only [gathered, hfiled, Option.isNone_some, Bool.false_or, decide_eq_true_eq] at hclear
  obtain ⟨htogether, hfound⟩ := hclear r hr hmeet
  obtain ⟨l, hl, hlead⟩ := hg.sound.owned r hr
  obtain ⟨hmatches, hshort⟩ := hfound l hl hlead
  have hown : st.ownOf env call = none := by simp [ownOf, hnew]
  obtain ⟨existing, result, hjoin⟩ := decision_joins hown hshort hmatches
  obtain ⟨hbest, hauto⟩ := decision_join hjoin
  obtain ⟨hexisting, -, hmatch⟩ := bestOf_some hbest
  -- the lead that is joined shows a key of the call, so one of its records has it
  have hjoined : keysMeet (call.lead env).toLeadPayload existing.toLeadPayload = true := by
    rw [← autoMatches_eq env, autoMatches, hmatch]
    exact hauto
  obtain ⟨key, hcall, hshows⟩ := keysMeet_iff.mp hjoined
  obtain ⟨r', hr', hlead', hkey⟩ := hg.evident.shown existing hexisting key hshows
  have hmeet' : keysMeet (call.lead env).toLeadPayload r'.normalized = true :=
    keysMeet_iff.mpr ⟨key, hcall, (hg.evident.prints r' hr' key).mp hkey⟩
  have hrow : row.id = existing.id := by
    have htarget := hs.lands.lead.1
    simpa [target, hjoin] using htarget
  rw [hrow, ← hlead', htogether r' hr' hmeet']

/-- One record stored for the first time. -/
theorem Gathered.settles (hg : Gathered env st) (hsource : call.source ∈ st.sources)
    (hpriority : call.priority = call.source.priority)
    (hfiled : call.filed env = some (call.entry env)) (hopen : call.blocked env = false)
    (hclear : st.gathered env call = true) (hs : Settles env st call validation row st')
    (hnew : st.recordOf env call = none) : Gathered env st' where
  sound := hg.sound.step hsource hs
  evident := hg.evident.settles hg.sound hopen hs hnew
  derived := hg.derived.settles hg.sound hopen (keepsOwner_new hnew) hs hsource hpriority
  closed := by
    have hinsert : {r | r ∈ st'.records} =
        insert ((st.upserted env call validation).ownedBy (some row.id)) {r | r ∈ st.records} := by
      ext r
      exact records_new hg.sound hopen hs hnew r
    rw [hinsert]
    apply hg.closed.insert fun a b => SourceRecord.Meets.symm
    intro r hr hmeets
    obtain ⟨key, hkey, hown⟩ := hmeets
    have hmeet : keysMeet (call.lead env).toLeadPayload r.normalized = true :=
      keysMeet_iff.mpr ⟨key, upserted_shows.mp hown, (hg.evident.prints r hr key).mp hkey⟩
    exact meets_row hg hfiled hclear hs hnew hr hmeet

end Store

open Store

/-- At every record of the loop what it shares a key with is gathered. -/
def gatheredCalls (env : Platform) : List IngestCall → Session Store Write RunStats → Bool
  | [], _ => true
  | call :: calls, s =>
      s.view.gathered env call && gatheredCalls env calls (attempt env call s)

/-- What a loop of new records leaves. -/
structure Fills (env : Platform) (st : Store) (calls : List IngestCall) (st' : Store) : Prop where
  gathered : Gathered env st'
  sources : st'.sources = st.sources
  suppressions : st'.suppressions = st.suppressions
  entries : ∀ sourceId, st'.entriesOf sourceId = st.entriesOf sourceId ++
    (calls.filter fun call => call.source.id == sourceId).filterMap (IngestCall.filed env)
  next : st'.records.next ≤ st.records.next + calls.length

theorem attempts_fills {s : Session Store Write RunStats} (h : s.Healthy)
    (hg : Gathered env s.view) {calls : List IngestCall}
    (hcalls : FromSources s.view.sources calls)
    (hdistinct : calls.Pairwise fun a b =>
      ¬(a.source.id = b.source.id ∧ a.recordKey env = b.recordKey env))
    (hfresh : Fresh env s.view calls) (hclear : gatheredCalls env calls s = true) :
    Fills env s.view calls (attempts env calls s).view := by
  induction calls generalizing s with
  | nil => exact ⟨hg, rfl, rfl, fun sourceId => by simp [attempts], Nat.le_refl _⟩
  | cons call calls ih =>
      obtain ⟨hcall, hcalls⟩ := List.forall_mem_cons.mp hcalls
      obtain ⟨hapart, hdistinct⟩ := List.pairwise_cons.mp hdistinct
      simp only [gatheredCalls, Bool.and_eq_true] at hclear
      obtain ⟨hhealthy, houtcome⟩ := attempt_outcome env h call
      have hrestFresh : Fresh env s.view calls := fun r hr call' hcall' =>
        hfresh r hr call' (List.mem_cons_of_mem _ hcall')
      change Fills env s.view (call :: calls) (attempts env calls (attempt env call s)).view
      have hnew := hfresh.recordOf List.mem_cons_self
      rcases hg.sound.outcome houtcome with
        ⟨hunfiled, hsame⟩ | ⟨hfiled, hopen, validation, row, hs⟩
      · have hrest := ih hhealthy (hsame ▸ hg) (by rwa [hsame]) hdistinct (by rwa [hsame])
          hclear.2
        rw [hsame] at hrest
        refine ⟨hrest.gathered, hrest.sources, hrest.suppressions, fun sourceId => ?_, ?_⟩
        · rw [hrest.entries, List.filter_cons]
          split
          · rw [List.filterMap_cons_none hunfiled]
          · rfl
        · have hnext := hrest.next
          rw [List.length_cons]
          omega
      · have hg' := hg.settles hcall.1 hcall.2 hfiled hopen hclear.1 hs hnew
        have hrest := ih hhealthy hg' (by rwa [FromSources, hs.sources]) hdistinct
          (hrestFresh.settles hapart hs) hclear.2
        have hentries := entriesOf_settles hg.sound hopen hs hnew
        refine ⟨hrest.gathered, hrest.sources.trans hs.sources,
          hrest.suppressions.trans hs.suppressions, fun sourceId => ?_, ?_⟩
        · rw [hrest.entries, hentries, List.filter_cons, List.append_assoc]
          by_cases hid : call.source.id = sourceId
          · simp [hid, hfiled]
          · simp [hid]
        · have hnext := hrest.next
          have hstored := hs.nextRecord
          have hfreshId := recordId_fresh hnew
          rw [List.length_cons]
          omega

end LeadPipe
