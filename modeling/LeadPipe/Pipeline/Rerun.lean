import LeadPipe.Pipeline.Derived

/-!
# Collecting a source again

A pass ingests the records of one source in order. After a pass every record holds what the
last item of its key said, so two passes over the same items leave the same payloads; and a
pass that takes no record away from its lead leaves every record where it was.
-/

namespace LeadPipe

open Framework

/-- `X'` are the records of `X` collected at other instants, in the same order of time. -/
structure Recollects (X X' : List RawRecord) : Prop where
  length : X.length = X'.length
  same : ∀ p ∈ X.zip X', p.2.source = p.1.source ∧ p.2.fields = p.1.fields
  order : ∀ p ∈ X.zip X', ∀ q ∈ X.zip X',
    p.1.collectedAt ≤ q.1.collectedAt ↔ p.2.collectedAt ≤ q.2.collectedAt

theorem mem_zip_self {α : Type} {l : List α} {p : α × α} (h : p ∈ l.zip l) :
    p.2 = p.1 ∧ p.1 ∈ l := by
  induction l with
  | nil => simp at h
  | cons a l ih =>
      rw [List.zip_cons_cons, List.mem_cons] at h
      rcases h with rfl | h
      · exact ⟨rfl, List.mem_cons_self⟩
      · exact ⟨(ih h).1, List.mem_cons_of_mem _ (ih h).2⟩

theorem Recollects.refl (X : List RawRecord) : Recollects X X where
  length := rfl
  same p hp := by simp [(mem_zip_self hp).1]
  order p hp q hq := by rw [(mem_zip_self hp).1, (mem_zip_self hq).1]

/-- The configuration a source is collected with, the same in every run. -/
structure RunConfig where
  source : Source
  region : Option Text
  suppressions : SuppressionList

namespace RunConfig

variable (env : Platform) (config : RunConfig)

def call (jobId : Nat) (raw : RawRecord) : IngestCall where
  source := config.source
  priority := config.source.priority
  raw := raw
  region := config.region
  jobId := jobId
  suppressions := config.suppressions

def pass (jobId : Nat) (X : List RawRecord) : List IngestCall := X.map (config.call jobId)

def passes (runs : List (Nat × List RawRecord)) : List IngestCall :=
  runs.flatMap fun run => config.pass run.1 run.2

def lead (raw : RawRecord) : NormalizedLead := normalizeRecord env raw config.region

def recordKey (raw : RawRecord) : Text := (config.call 0 raw).recordKey env

def blocked (raw : RawRecord) : Bool := (config.call 0 raw).blocked env

/-- The last item of a key that is not suppressed. -/
def lastOf (X : List RawRecord) (key : Text) : Option RawRecord :=
  X.reverse.find? fun raw => !config.blocked env raw && config.recordKey env raw == key

section Same

variable {raw raw' : RawRecord}

theorem lead_same (hsource : raw'.source = raw.source) (hfields : raw'.fields = raw.fields) :
    config.lead env raw' = { config.lead env raw with collectedAt := raw'.collectedAt } := by
  unfold lead normalizeRecord RawRecord.field
  rw [hsource, hfields]

theorem blocked_same (hsource : raw'.source = raw.source) (hfields : raw'.fields = raw.fields) :
    config.blocked env raw' = config.blocked env raw := by
  have hlead := lead_same env config hsource hfields
  change (config.suppressions.blocks (config.lead env raw').toLeadPayload).isSome = _
  rw [hlead]
  rfl

theorem recordKey_same (hsource : raw'.source = raw.source)
    (hfields : raw'.fields = raw.fields) :
    config.recordKey env raw' = config.recordKey env raw := by
  have hlead := lead_same env config hsource hfields
  change SourceRecordRepository.recordKey env (config.lead env raw') _ = _
  unfold recordKey IngestCall.recordKey IngestCall.lead
  change SourceRecordRepository.recordKey env (config.lead env raw')
    (config.lead env raw').externalId = _
  rw [hlead]
  rfl

theorem validateLead_same (hsource : raw'.source = raw.source)
    (hfields : raw'.fields = raw.fields) :
    validateLead env (config.lead env raw') = validateLead env (config.lead env raw) := by
  rw [lead_same env config hsource hfields]
  rfl

end Same

variable {env config}

theorem lastOf_append (X Y : List RawRecord) (key : Text) :
    config.lastOf env (X ++ Y) key = (config.lastOf env Y key).or (config.lastOf env X key) := by
  simp [lastOf, List.find?_append]

/-- The last items of a key in two collections of the same records stand at the same place. -/
theorem lastOf_pair (env : Platform) (config : RunConfig) {X X' : List RawRecord}
    (h : Recollects X X') (key : Text) :
    ∃ last : Option (RawRecord × RawRecord), (∀ p, last = some p → p ∈ X.zip X') ∧
      config.lastOf env X key = last.map Prod.fst ∧
      config.lastOf env X' key = last.map Prod.snd := by
  refine ⟨(X.zip X').reverse.find? fun p =>
    !config.blocked env p.1 && config.recordKey env p.1 == key, ?_, ?_, ?_⟩
  · intro p hp
    exact List.mem_reverse.mp (List.mem_of_find?_eq_some hp)
  · have hfst : X.reverse = (X.zip X').reverse.map Prod.fst := by
      rw [List.map_reverse, List.map_fst_zip h.length.le]
    rw [lastOf, hfst, List.find?_map]
    rfl
  · have hsnd : X'.reverse = (X.zip X').reverse.map Prod.snd := by
      rw [List.map_reverse, List.map_snd_zip h.length.ge]
    rw [lastOf, hsnd, List.find?_map]
    refine congrArg _ (List.find?_congr fun p hp => ?_)
    obtain ⟨hsource, hfields⟩ := h.same p (List.mem_reverse.mp hp)
    simp only [Function.comp_apply, blocked_same env config hsource hfields,
      recordKey_same env config hsource hfields]

/-- The tables after the items `X`, in whatever passes they came. -/
structure Holds (env : Platform) (config : RunConfig) (st : Store) (X : List RawRecord) :
    Prop where
  configured : config.source ∈ st.sources
  source : ∀ r ∈ st.records, r.sourceId = config.source.id
  content : ∀ r ∈ st.records, ∃ raw, config.lastOf env X r.recordKey = some raw ∧
    r.normalized = (config.lead env raw).toLeadPayload ∧ r.collectedAt = raw.collectedAt
  stored : ∀ raw ∈ X, config.blocked env raw = false →
    ∃ r ∈ st.records, r.recordKey = config.recordKey env raw
  graded : ∀ raw ∈ X, config.blocked env raw = false →
    ∃ validation, validateLead env (config.lead env raw) = .ok validation

theorem Holds.ofSources {sources : Table Source} (h : config.source ∈ sources) :
    Holds env config (.ofSources sources) [] where
  configured := h
  source r hr := absurd hr (Table.not_mem_empty r)
  content r hr := absurd hr (Table.not_mem_empty r)
  stored := by simp
  graded := by simp

variable {st st' : Store} {X Y : List RawRecord} {jobId : Nat} {raw : RawRecord}

theorem lastOf_snoc_blocked (X : List RawRecord) (hblocked : config.blocked env raw = true) (key : Text) :
    config.lastOf env (X ++ [raw]) key = config.lastOf env X key := by
  rw [lastOf_append]
  simp [lastOf, hblocked]

theorem lastOf_snoc (hopen : config.blocked env raw = false) (key : Text) :
    config.lastOf env (X ++ [raw]) key =
      if config.recordKey env raw = key then some raw else config.lastOf env X key := by
  rw [lastOf_append]
  by_cases hkey : config.recordKey env raw = key <;> simp [lastOf, hopen, hkey]

theorem Holds.settles (h : Holds env config st X) (hsound : st.Sound env)
    {validation : LeadValidation} {row : Lead} (hopen : config.blocked env raw = false)
    (hs : Settles env st (config.call jobId raw) validation row st') :
    Holds env config st' (X ++ [raw]) where
  configured := by
    rw [hs.sources]
    exact h.configured
  source := by
    intro r hr
    rcases (hs.records r).mp hr with rfl | ⟨hr, -⟩
    · exact Store.upserted_sourceId env st _ validation
    · exact h.source r hr
  content := by
    intro r hr
    rcases (hs.records r).mp hr with rfl | ⟨hr, hid⟩
    · refine ⟨raw, ?_, rfl, rfl⟩
      have hkey := Store.upserted_recordKey env st (config.call jobId raw) validation
      rw [lastOf_snoc hopen]
      exact if_pos hkey.symm
    · obtain ⟨last, hlast, hcontent⟩ := h.content r hr
      refine ⟨last, ?_, hcontent⟩
      have hne : config.recordKey env raw ≠ r.recordKey := fun hkey =>
        hid (hsound.eq_recordId hr (h.source r hr) hkey.symm)
      rw [lastOf_snoc hopen, if_neg hne, hlast]
  stored := by
    have hnew := Store.upserted_recordKey env st (config.call jobId raw) validation
    intro raw' hraw' hopen'
    rcases List.mem_append.mp hraw' with hraw' | hraw'
    · obtain ⟨r, hr, hkey⟩ := h.stored raw' hraw' hopen'
      by_cases hid : r.id = st.recordId env (config.call jobId raw)
      · refine ⟨_, (hs.records _).mpr (.inl rfl), hnew.trans ?_⟩
        cases hrec : st.recordOf env (config.call jobId raw) with
        | none =>
            have hfresh := Store.recordId_fresh hrec
            have hlt : r.id < st.records.next := Table.key_lt_next hr
            omega
        | some r' =>
            obtain ⟨hmem, -, hkey'⟩ := Store.recordOf_some hrec
            have hsame : r = r' :=
              Table.eq_of_key hr hmem (hid.trans (Store.recordId_eq hrec))
            rw [← hkey, hsame, hkey']
      · exact ⟨r, (hs.records r).mpr (.inr ⟨hr, hid⟩), hkey⟩
    · obtain rfl : raw' = raw := by simpa using hraw'
      exact ⟨_, (hs.records _).mpr (.inl rfl), hnew⟩
  graded := by
    intro raw' hraw' hopen'
    rcases List.mem_append.mp hraw' with hraw' | hraw'
    · exact h.graded raw' hraw' hopen'
    · obtain rfl : raw' = raw := by simpa using hraw'
      exact ⟨validation, hs.validates⟩

theorem Holds.ingested (h : Holds env config st X) (hsound : st.Sound env)
    (hrun : st.ingested env (config.call jobId raw) = some st') :
    Holds env config st' (X ++ [raw]) := by
  rcases Store.ingested_cases hrun with ⟨hblocked, rfl⟩ | ⟨hopen, validation, row, hs⟩
  · have hlast := lastOf_snoc_blocked X hblocked
    refine ⟨h.configured, h.source, fun r hr => ?_, fun raw' hraw' hopen' => ?_,
      fun raw' hraw' hopen' => ?_⟩
    · rw [hlast]
      exact h.content r hr
    · rcases List.mem_append.mp hraw' with hraw' | hraw'
      · exact h.stored raw' hraw' hopen'
      · obtain rfl : raw' = raw := by simpa using hraw'
        exact absurd (hopen'.symm.trans hblocked) (by simp)
    · rcases List.mem_append.mp hraw' with hraw' | hraw'
      · exact h.graded raw' hraw' hopen'
      · obtain rfl : raw' = raw := by simpa using hraw'
        exact absurd (hopen'.symm.trans hblocked) (by simp)
  · exact h.settles hsound hopen hs

theorem Holds.pass (h : Holds env config st X) (hsound : st.Sound env)
    (hrun : st.collected env (config.pass jobId Y) = some st') :
    Holds env config st' (X ++ Y) := by
  induction Y generalizing st X with
  | nil =>
      obtain rfl : st = st' := by simpa [RunConfig.pass, Store.collected] using hrun
      simpa using h
  | cons raw Y ih =>
      obtain ⟨st₁, hstep, hrest⟩ := Option.bind_eq_some_iff.mp hrun
      have h₁ := ih (h.ingested hsound hstep) (hsound.ingested h.configured hstep) hrest
      simpa using h₁

end RunConfig

namespace Store

def Assigns (st : Store) (recordKey : Text) (recordId : Nat) (leadId : Option Nat) : Prop :=
  ∃ r ∈ st.records, r.recordKey = recordKey ∧ r.id = recordId ∧ r.leadId = leadId

def Shows (st : Store) (leadId : Nat) (columns : LeadPayload) : Prop :=
  ∃ l ∈ st.leads, l.id = leadId ∧ l.toLeadPayload = columns

/-- The same records belong to the same leads. -/
structure SameOwners (st st' : Store) : Prop where
  records : ∀ key id leadId, st.Assigns key id leadId ↔ st'.Assigns key id leadId
  leads : ∀ id, (∃ l ∈ st.leads, l.id = id) ↔ ∃ l ∈ st'.leads, l.id = id

theorem SameOwners.refl (st : Store) : SameOwners st st := ⟨fun _ _ _ => Iff.rfl, fun _ => Iff.rfl⟩

theorem SameOwners.trans {st₁ st₂ st₃ : Store} (h : SameOwners st₁ st₂) (h' : SameOwners st₂ st₃) :
    SameOwners st₁ st₃ :=
  ⟨fun key id leadId => (h.records key id leadId).trans (h'.records key id leadId),
    fun id => (h.leads id).trans (h'.leads id)⟩

variable {env : Platform} {st st' : Store} {call : IngestCall}

theorem SameOwners.settles (h : st.Sound env) (hopen : call.blocked env = false)
    (hkeeps : st.keepsOwner env call = true) {validation : LeadValidation} {row : Lead}
    (hs : Settles env st call validation row st') {rec : SourceRecord}
    (hrec : st.recordOf env call = some rec) : SameOwners st st' := by
  obtain ⟨hattached, hbefore⟩ := attached_of_keepsOwner h hopen hkeeps hs
  obtain ⟨hmem, -, hkey⟩ := recordOf_some hrec
  have hid := recordId_eq hrec
  have hlead := hbefore rec hrec
  have hnewKey := upserted_recordKey env st call validation
  have hnewId := upserted_id env st call validation
  refine ⟨fun key id leadId => ⟨?_, ?_⟩, fun id => ⟨?_, ?_⟩⟩
  · rintro ⟨r, hr, rfl, rfl, rfl⟩
    by_cases hsame : r.id = st.recordId env call
    · have hrec' : r = rec := Table.eq_of_key hr hmem (hsame.trans hid)
      subst hrec'
      exact ⟨_, (hs.records _).mpr (.inl rfl), hnewKey.trans hkey.symm, hnewId.trans hid,
        hattached.trans hlead.symm⟩
    · exact ⟨r, (hs.records r).mpr (.inr ⟨hr, hsame⟩), rfl, rfl, rfl⟩
  · rintro ⟨r, hr, rfl, rfl, rfl⟩
    rcases (hs.records r).mp hr with rfl | ⟨hr, -⟩
    · exact ⟨rec, hmem, hkey.trans hnewKey.symm, hid.symm.trans hnewId.symm,
        hlead.trans hattached.symm⟩
    · exact ⟨r, hr, rfl, rfl, rfl⟩
  · rintro ⟨l, hl, rfl⟩
    exact hs.lead_survives hl
  · rintro ⟨l, hl, rfl⟩
    rcases (hs.leads l).mp hl with rfl | ⟨hl, -⟩
    · obtain ⟨l, hl, hown⟩ := h.owned rec hmem
      exact ⟨l, hl, Option.some.inj (hown.symm.trans hlead)⟩
    · exact ⟨l, hl, rfl⟩

end Store

namespace RunConfig

variable {env : Platform} {config : RunConfig} {st st' : Store} {X X' Y : List RawRecord}
  {jobId : Nat} {raw : RawRecord}

/-- An item whose record is stored and was graded before. -/
def Known (env : Platform) (config : RunConfig) (st : Store) (raw : RawRecord) : Prop :=
  config.blocked env raw = false →
    (∃ r ∈ st.records, r.recordKey = config.recordKey env raw) ∧
      ∃ validation, validateLead env (config.lead env raw) = .ok validation

/-- The invariant between passes. -/
structure Stable (env : Platform) (config : RunConfig) (sources : Table Source) (st : Store)
    (X : List RawRecord) : Prop where
  sound : st.Sound env
  derived : st.Derived
  holds : Holds env config st X
  sources : st.sources = sources

theorem Stable.ingested {sources : Table Source} (h : Stable env config sources st X) (jobId : Nat)
    (hknown : Known env config st raw)
    (hkeeps : st.keepsOwner env (config.call jobId raw) = true) :
    ∃ st', st.ingested env (config.call jobId raw) = some st' ∧
      Stable env config sources st' (X ++ [raw]) ∧ st.SameOwners st' := by
  have hcompletes : config.blocked env raw = true ∨
      ∃ validation, validateLead env (config.lead env raw) = .ok validation := by
    cases hb : config.blocked env raw with
    | true => exact .inl rfl
    | false => exact .inr (hknown hb).2
  obtain ⟨st', hstep⟩ : ∃ st', st.ingested env (config.call jobId raw) = some st' :=
    h.sound.completes hcompletes
  have hsound := h.sound.ingested h.holds.configured hstep
  have hholds := h.holds.ingested h.sound hstep
  refine ⟨st', hstep, ?_⟩
  rcases Store.ingested_cases hstep with ⟨-, rfl⟩ | ⟨hopen, validation, row, hs⟩
  · exact ⟨⟨hsound, h.derived, hholds, h.sources⟩, Store.SameOwners.refl _⟩
  · have hderived := h.derived.settles h.sound hopen hkeeps hs h.holds.configured rfl
    obtain ⟨r, hr, hkey⟩ := (hknown hopen).1
    have hrec : ∃ rec, st.recordOf env (config.call jobId raw) = some rec := by
      cases hrec : st.recordOf env (config.call jobId raw) with
      | some rec => exact ⟨rec, rfl⟩
      | none =>
          exact absurd ⟨h.holds.source r hr, hkey⟩
            (SourceRecordRepository.byKey_none hrec r hr)
    obtain ⟨rec, hrec⟩ := hrec
    exact ⟨⟨hsound, hderived, hholds, hs.sources.trans h.sources⟩,
      Store.SameOwners.settles h.sound hopen hkeeps hs hrec⟩

theorem Known.sameOwners (h : Known env config st raw) (hsame : st.SameOwners st') :
    Known env config st' raw := by
  intro hopen
  obtain ⟨⟨r, hr, hkey⟩, hv⟩ := h hopen
  obtain ⟨r', hr', hkey', -, -⟩ := (hsame.records _ _ _).mp ⟨r, hr, hkey, rfl, rfl⟩
  exact ⟨⟨r', hr', hkey'⟩, hv⟩

theorem Stable.pass {sources : Table Source} (h : Stable env config sources st X)
    (hknown : ∀ raw ∈ Y, Known env config st raw) {rest : List IngestCall}
    (hkeeps : st.keepsOwners env (config.pass jobId Y ++ rest) = true) :
    ∃ st', st.collected env (config.pass jobId Y) = some st' ∧
      Stable env config sources st' (X ++ Y) ∧ st.SameOwners st' ∧
        st'.keepsOwners env rest = true := by
  induction Y generalizing st X with
  | nil => exact ⟨st, rfl, by simpa using h, Store.SameOwners.refl st, hkeeps⟩
  | cons raw Y ih =>
      simp only [RunConfig.pass, List.map_cons, List.cons_append, Store.keepsOwners,
        Bool.and_eq_true] at hkeeps
      obtain ⟨st₁, hstep, hstable, hsame⟩ :=
        h.ingested jobId (hknown raw List.mem_cons_self) hkeeps.1
      have hkeeps' := hkeeps.2
      rw [hstep, Option.all_some] at hkeeps'
      obtain ⟨st', hrun, hstable', hsame', hrest⟩ := ih hstable
        (fun raw' hraw' => (hknown raw' (List.mem_cons_of_mem _ hraw')).sameOwners hsame) hkeeps'
      refine ⟨st', ?_, by simpa using hstable', hsame.trans hsame', hrest⟩
      simp only [RunConfig.pass, List.map_cons, Store.collected, hstep]
      exact hrun

section TwoPasses

variable {sources : Table Source} {s : Store}

theorem mem_zip_of_mem_right (h : Recollects X Y) (hraw : raw ∈ Y) :
    ∃ raw₀, (raw₀, raw) ∈ X.zip Y := by
  have hsnd : raw ∈ (X.zip Y).map Prod.snd := by
    rwa [List.map_snd_zip h.length.ge]
  obtain ⟨p, hp, rfl⟩ := List.mem_map.mp hsnd
  exact ⟨p.1, hp⟩

theorem Holds.known (h : Holds env config st X) (hXY : Recollects X Y) (hraw : raw ∈ Y) :
    Known env config st raw := by
  obtain ⟨raw₀, hp⟩ := mem_zip_of_mem_right hXY hraw
  obtain ⟨hsource, hfields⟩ := hXY.same _ hp
  have hraw₀ : raw₀ ∈ X := (List.of_mem_zip hp).1
  intro hopen
  rw [blocked_same env config hsource hfields] at hopen
  rw [recordKey_same env config hsource hfields, validateLead_same env config hsource hfields]
  exact ⟨h.stored raw₀ hraw₀ hopen, h.graded raw₀ hraw₀ hopen⟩

theorem Holds.latest (h : Holds env config st (X' ++ Y)) (hX : Recollects X X')
    (hY : Recollects X Y) : Holds env config st Y where
  configured := h.configured
  source := h.source
  content := by
    intro r hr
    obtain ⟨last, hlast, hcontent⟩ := h.content r hr
    rw [lastOf_append] at hlast
    obtain ⟨p, -, hfst, hsnd⟩ := lastOf_pair env config hX r.recordKey
    obtain ⟨q, -, hfst', hsnd'⟩ := lastOf_pair env config hY r.recordKey
    cases q with
    | some q =>
        rw [hsnd', Option.map_some, Option.some_or] at hlast
        exact ⟨last, hsnd'.trans hlast, hcontent⟩
    | none =>
        rw [hfst'] at hfst
        cases p with
        | some p => simp at hfst
        | none => simp [hsnd, hsnd'] at hlast
  stored raw hraw := h.stored raw (List.mem_append_right _ hraw)
  graded raw hraw := h.graded raw (List.mem_append_right _ hraw)

theorem Stable.candidate (h : Stable env config sources st X) {r : SourceRecord}
    (hr : r ∈ st.records) :
    ∃ c, LeadRepository.toCandidate st r = some c ∧ c.origin = Text.ofNat r.id ∧
      c.priority = config.source.priority ∧ ∃ raw, config.lastOf env X r.recordKey = some raw ∧
        c.lead.toLeadPayload = (config.lead env raw).toLeadPayload ∧
        c.lead.collectedAt = raw.collectedAt := by
  have hfind : st.sources.find? r.sourceId = some config.source :=
    Table.find?_eq_some.mpr ⟨h.holds.configured, (h.holds.source r hr).symm⟩
  obtain ⟨raw, hlast, hpayload, htime⟩ := h.holds.content r hr
  refine ⟨⟨r.toNormalized config.source.name, Text.ofNat r.id, config.source.priority⟩, ?_, rfl,
    rfl, raw, hlast, hpayload, htime⟩
  simp [LeadRepository.toCandidate, hfind]

private theorem candidates_paired (hs : Stable env config sources s X)
    (h : Stable env config sources st X') (hX : Recollects X X') (hsame : s.SameOwners st)
    {r r' : SourceRecord} (hr : r ∈ s.records) (hr' : r' ∈ st.records) (hid : r'.id = r.id)
    {c c' : Candidate} (hc : LeadRepository.toCandidate s r = some c)
    (hc' : LeadRepository.toCandidate st r' = some c') :
    c.Again c' ∧ ∃ p ∈ X.zip X', c.lead.collectedAt = p.1.collectedAt ∧
      c'.lead.collectedAt = p.2.collectedAt := by
  have hkey : r'.recordKey = r.recordKey := by
    obtain ⟨r₁, hr₁, hkey, hid₁, -⟩ := (hsame.records _ _ _).mp ⟨r, hr, rfl, rfl, rfl⟩
    have heq : r' = r₁ := Table.eq_of_key hr' hr₁ (hid.trans hid₁.symm)
    rw [heq, hkey]
  obtain ⟨d, hd, horigin, hpriority, raw, hlast, hpayload, htime⟩ := hs.candidate hr
  obtain ⟨d', hd', horigin', hpriority', raw', hlast', hpayload', htime'⟩ := h.candidate hr'
  obtain rfl : d = c := Option.some.inj (hd.symm.trans hc)
  obtain rfl : d' = c' := Option.some.inj (hd'.symm.trans hc')
  obtain ⟨last, hmem, hfst, hsnd⟩ := lastOf_pair env config hX r.recordKey
  rw [hkey] at hlast'
  cases last with
  | none => simp [hlast] at hfst
  | some p =>
      obtain rfl : raw = p.1 := by simpa [hlast] using hfst
      obtain rfl : raw' = p.2 := by simpa [hlast'] using hsnd
      have hp := hmem p rfl
      obtain ⟨hsource, hfields⟩ := hX.same p hp
      refine ⟨⟨?_, by rw [horigin, horigin', hid], hpriority'.trans hpriority.symm⟩, p, hp, htime,
        htime'⟩
      rw [hpayload, hpayload', lead_same env config hsource hfields]

theorem Stable.sameColumns (hs : Stable env config sources s X)
    (h : Stable env config sources st X') (hX : Recollects X X') (hsame : s.SameOwners st)
    (leadId : Nat) :
    mergedColumns (LeadRepository.candidatesFor s leadId) =
      mergedColumns (LeadRepository.candidatesFor st leadId) := by
  have hpaired {a a' : Candidate} (ha : a ∈ LeadRepository.candidatesFor s leadId)
      (ha' : a' ∈ LeadRepository.candidatesFor st leadId) (hagain : a.Again a') :
      ∃ p ∈ X.zip X', a.lead.collectedAt = p.1.collectedAt ∧
        a'.lead.collectedAt = p.2.collectedAt := by
    obtain ⟨r, hr, -, hc⟩ := LeadRepository.mem_candidatesFor.mp ha
    obtain ⟨r', hr', -, hc'⟩ := LeadRepository.mem_candidatesFor.mp ha'
    have horigin := hagain.origin
    rw [LeadRepository.toCandidate_origin hc, LeadRepository.toCandidate_origin hc'] at horigin
    have hid : r'.id = r.id := originKey_ofNat_injective (congrArg originKey horigin)
    exact (candidates_paired hs h hX hsame hr hr' hid hc hc').2
  apply mergedColumns_again (LeadRepository.candidatesFor_numbered s leadId)
    (LeadRepository.candidatesFor_numbered st leadId)
  · intro c hc
    obtain ⟨r, hr, hlead, hc⟩ := LeadRepository.mem_candidatesFor.mp hc
    obtain ⟨r', hr', -, hid, hlead'⟩ := (hsame.records _ _ _).mp ⟨r, hr, rfl, rfl, hlead⟩
    obtain ⟨c', hc', -⟩ := h.candidate hr'
    exact ⟨c', LeadRepository.mem_candidatesFor.mpr ⟨r', hr', hlead', hc'⟩,
      (candidates_paired hs h hX hsame hr hr' hid hc hc').1⟩
  · intro c' hc'
    obtain ⟨r', hr', hlead', hc'⟩ := LeadRepository.mem_candidatesFor.mp hc'
    obtain ⟨r, hr, -, hid, hlead⟩ := (hsame.records _ _ _).mpr ⟨r', hr', rfl, rfl, hlead'⟩
    obtain ⟨c, hc, -⟩ := hs.candidate hr
    exact ⟨c, LeadRepository.mem_candidatesFor.mpr ⟨r, hr, hlead, hc⟩,
      (candidates_paired hs h hX hsame hr hr' hid.symm hc hc').1⟩
  · intro a ha a' ha' hagain b hb b' hb' hagain'
    obtain ⟨p, hp, hat, hat'⟩ := hpaired ha ha' hagain
    obtain ⟨q, hq, hbt, hbt'⟩ := hpaired hb hb' hagain'
    rw [hat, hat', hbt, hbt']
    exact hX.order p hp q hq

theorem Stable.sameShows (hs : Stable env config sources s X)
    (h : Stable env config sources st X') (hX : Recollects X X') (hsame : s.SameOwners st)
    (leadId : Nat) (columns : LeadPayload) : s.Shows leadId columns ↔ st.Shows leadId columns := by
  have hcolumns := hs.sameColumns h hX hsame leadId
  constructor
  · rintro ⟨l, hl, rfl, rfl⟩
    obtain ⟨l', hl', hid⟩ := (hsame.leads _).mp ⟨l, hl, rfl⟩
    refine ⟨l', hl', hid, ?_⟩
    have hmerge := (h.derived l' hl').2
    rw [hid, ← hcolumns, (hs.derived l hl).2] at hmerge
    exact (Option.some.inj hmerge).symm
  · rintro ⟨l', hl', rfl, rfl⟩
    obtain ⟨l, hl, hid⟩ := (hsame.leads _).mpr ⟨l', hl', rfl⟩
    refine ⟨l, hl, hid, ?_⟩
    have hmerge := (hs.derived l hl).2
    rw [hid, hcolumns, (h.derived l' hl').2] at hmerge
    exact (Option.some.inj hmerge).symm

theorem Stable.passes (hs : Stable env config sources s X) {runs : List (Nat × List RawRecord)}
    (hruns : ∀ run ∈ runs, Recollects X run.2) (hX : Recollects X X')
    (h : Stable env config sources st X') (hsame : s.SameOwners st)
    (hkeeps : st.keepsOwners env (config.passes runs) = true) :
    ∃ st' X'', st.collected env (config.passes runs) = some st' ∧ Recollects X X'' ∧
      Stable env config sources st' X'' ∧ s.SameOwners st' := by
  induction runs generalizing st X' with
  | nil => exact ⟨st, X', rfl, hX, h, hsame⟩
  | cons run runs ih =>
      obtain ⟨jobId, Y⟩ := run
      have hY : Recollects X Y := hruns (jobId, Y) List.mem_cons_self
      have hknown : ∀ raw ∈ Y, Known env config st raw := fun raw hraw =>
        (hs.holds.known hY hraw).sameOwners hsame
      simp only [RunConfig.passes, List.flatMap_cons] at hkeeps ⊢
      obtain ⟨st₁, hrun, hstable, hsame₁, hrest⟩ := h.pass hknown hkeeps
      have hlatest : Stable env config sources st₁ Y :=
        ⟨hstable.sound, hstable.derived, hstable.holds.latest hX hY, hstable.sources⟩
      obtain ⟨st', X'', hruns', hX'', hstable', hsame'⟩ :=
        ih (fun run hrun => hruns run (List.mem_cons_of_mem _ hrun)) hY hlatest
          (hsame.trans hsame₁) hrest
      refine ⟨st', X'', ?_, hX'', hstable', hsame'⟩
      rw [Store.collected_append, hrun]
      exact hruns'

end TwoPasses

end RunConfig

/-- The same records belong to the same leads, and the leads show the same values. -/
def Store.SameData (st st' : Store) : Prop :=
  (∀ key id leadId, st.Assigns key id leadId ↔ st'.Assigns key id leadId) ∧
    ∀ leadId columns, st.Shows leadId columns ↔ st'.Shows leadId columns

/-- A source that was collected once can be collected again any number of times: as long as
no call takes a record away from its lead, the later passes complete and change neither an
assignment nor a merged value. -/
theorem recollection_reaches_fixpoint (env : Platform) {config : RunConfig}
    {sources : Table Source} (hsource : config.source ∈ sources) {jobId : Nat}
    {X : List RawRecord} {s : Store}
    (hfirst : (Store.ofSources sources).collected env (config.pass jobId X) = some s)
    {runs : List (Nat × List RawRecord)} (hruns : ∀ run ∈ runs, Recollects X run.2)
    (hkeeps : (Store.ofSources sources).keepsOwners env
      (config.pass jobId X ++ config.passes runs) = true) :
    ∃ st, s.collected env (config.passes runs) = some st ∧ s.SameData st := by
  obtain ⟨hkeepsFirst, hkeepsRest⟩ := Store.keepsOwners_append hkeeps hfirst
  have hsound := Store.Sound.ofSources env sources
  have hcalls : Store.FromSources (Store.ofSources sources).sources (config.pass jobId X) := by
    intro call hcall
    obtain ⟨raw, -, rfl⟩ := List.mem_map.mp hcall
    exact ⟨hsource, rfl⟩
  have hempty : (Store.ofSources sources).Derived :=
    fun l hl => absurd hl (Table.not_mem_empty l)
  obtain ⟨hderived, hsound'⟩ := hempty.collected hsound hcalls hkeepsFirst hfirst
  have hholds : RunConfig.Holds env config s ([] ++ X) :=
    (RunConfig.Holds.ofSources hsource).pass hsound hfirst
  have hstable : RunConfig.Stable env config s.sources s X :=
    ⟨hsound', hderived, by simpa using hholds, rfl⟩
  obtain ⟨st, X', hrun, hX', hstable', hsame⟩ := hstable.passes hruns (Recollects.refl X)
    hstable (Store.SameOwners.refl s) hkeepsRest
  exact ⟨st, hrun, hsame.records, hstable.sameShows hstable' hX' hsame⟩

def RunConfig.csv : RunConfig := ⟨.csv, none, ⟨[], []⟩⟩

def itemsFrom (start : Instant) (items : List (List (String × String))) : List RawRecord :=
  items.mapIdx fun i fields => (IngestCall.plain .csv (start + i) fields).raw

def twoCompanies : List (List (String × String)) :=
  [[("external_id", "1"), ("email", "a@x.fi")], [("external_id", "2"), ("email", "b@x.fi")]]

theorem recollection_reaches_fixpoint_twice :
    ∃ s st, (Store.ofSources (Table.empty.put .csv)).collected .ascii
        (RunConfig.csv.pass 1 (itemsFrom 1 twoCompanies)) = some s ∧
      s.collected .ascii (RunConfig.csv.passes
        [(2, itemsFrom 11 twoCompanies), (3, itemsFrom 21 twoCompanies)]) = some st ∧
      s.SameData st := by
  obtain ⟨s, hfirst⟩ := Option.isSome_iff_exists.mp (show ((Store.ofSources
    (Table.empty.put .csv)).collected .ascii
      (RunConfig.csv.pass 1 (itemsFrom 1 twoCompanies))).isSome = true by decide +kernel)
  have hruns : ∀ run ∈ [(2, itemsFrom 11 twoCompanies), (3, itemsFrom 21 twoCompanies)],
      Recollects (itemsFrom 1 twoCompanies) run.2 := by
    intro run hrun
    simp only [List.mem_cons, List.not_mem_nil, or_false] at hrun
    rcases hrun with rfl | rfl <;>
      exact ⟨by decide +kernel, by decide +kernel, by decide +kernel⟩
  have hsource : RunConfig.csv.source ∈ (Table.empty.put Source.csv) :=
    Table.mem_put.mpr (.inl rfl)
  obtain ⟨st, hrun, hsame⟩ := recollection_reaches_fixpoint .ascii hsource hfirst hruns
    (by decide +kernel)
  exact ⟨s, st, hfirst, hrun, hsame⟩

/-- The third record bridges the first two and joins the second. -/
def bridged : List (List (String × String)) :=
  [[("external_id", "1"), ("phone", "+358401")], [("external_id", "2"), ("email", "b@x.fi")],
    [("external_id", "3"), ("email", "b@x.fi"), ("phone", "+358401")]]

/-- On the second pass the first record moves to the lead that shows its number by then. -/
theorem recollection_moves_records :
    ¬∀ (env : Platform) (config : RunConfig) (sources : Table Source), config.source ∈ sources →
      ∀ jobId X s, (Store.ofSources sources).collected env (config.pass jobId X) = some s →
        ∀ jobId' X', Recollects X X' →
          (∀ raw ∈ X, ∀ raw' ∈ X', raw.collectedAt < raw'.collectedAt) →
            ∀ st, s.collected env (config.pass jobId' X') = some st → s.SameData st := by
  intro h
  have hmoves : ((Store.ofSources (Table.empty.put .csv)).collected .ascii
      (RunConfig.csv.pass 1 (itemsFrom 1 bridged))).any (fun s =>
        (s.collected .ascii (RunConfig.csv.pass 2 (itemsFrom 11 bridged))).any fun st =>
          decide (∃ r ∈ s.records, r.recordKey = ['1'] ∧ r.id = 1 ∧ r.leadId = some 1) &&
            !decide (∃ r ∈ st.records, r.recordKey = ['1'] ∧ r.id = 1 ∧ r.leadId = some 1)) =
      true := by
    decide +kernel
  obtain ⟨s, hfirst, hmoves⟩ := (Option.any_eq_true _ _).mp hmoves
  obtain ⟨st, hsecond, hmoves⟩ := (Option.any_eq_true _ _).mp hmoves
  have hagain : Recollects (itemsFrom 1 bridged) (itemsFrom 11 bridged) :=
    ⟨by decide +kernel, by decide +kernel, by decide +kernel⟩
  have hsame := h .ascii .csv _ (Table.mem_put.mpr (.inl rfl)) 1 _ s hfirst 2 _ hagain
    (by decide +kernel) st hsecond
  simp only [Bool.and_eq_true, Bool.not_eq_true', decide_eq_true_eq, decide_eq_false_iff_not]
    at hmoves
  exact hmoves.2 ((hsame.1 ['1'] 1 (some 1)).mp hmoves.1)

end LeadPipe
