import LeadPipe.Pipeline.Gathering

/-!
# The order of collections

Each source is collected once. When every record finds what it shares a key with gathered in one
lead, the tables that are left are described without the order of the collections: what is stored
of each source, and leads that are the classes of records connected by shared keys.
-/

namespace LeadPipe

open Framework Store

variable {env : Platform} {st st' : Store}

namespace CollectionRun

variable (env : Platform) (run : CollectionRun)

/-- What the run stores of a record, with nothing suppressed. -/
def entryOf (raw : RawRecord) : Option Entry :=
  let lead := normalizeRecord env raw run.config.region
  if (validateLead env lead).isOk then
    some ⟨SourceRecordRepository.recordKey env lead lead.externalId, lead.toLeadPayload,
      lead.collectedAt⟩
  else none

def entries : List Entry := run.records.filterMap (run.entryOf env)

def recordKeys : List Text :=
  run.records.map fun raw =>
    let lead := normalizeRecord env raw run.config.region
    SourceRecordRepository.recordKey env lead lead.externalId

/-- At every record of the run what it shares a key with is gathered. -/
def gathers (st : Store) : Bool :=
  match openRun run.config run.jobId run.startedAt st.session with
  | (.ok (source, job, suppressions), s) =>
      gatheredCalls env (run.records.map (run.call source job suppressions)) s
  | (.error _, _) => true

def gathersAll : Store → List CollectionRun → Bool
  | _, [] => true
  | st, run :: runs =>
      run.gathers env st && (run.collect env st).all fun st' => gathersAll st' runs

/-- The tables hold what these runs store, each under a source of its own, and nothing else. -/
structure Filed (env : Platform) (runs : List CollectionRun) (st : Store) : Prop where
  gathered : Gathered env st
  unsuppressed : SuppressionRepository.list st = ⟨[], []⟩
  named : SourceRepository.Named st
  known : ∀ s ∈ st.sources, ∃ run ∈ runs, s.name = run.config.name
  source : ∀ run ∈ runs, ∃ s ∈ st.sources, s.name = run.config.name ∧
    s.priority = run.config.priority ∧ st.entriesOf s.id = run.entries env
  next : st.records.next ≤ 1 + (runs.flatMap CollectionRun.records).length

theorem Filed.empty (env : Platform) : Filed env [] .empty where
  gathered := Gathered.ofSources env .empty
  unsuppressed := rfl
  named r hr := absurd hr (Table.not_mem_empty r)
  known s hs := absurd hs (Table.not_mem_empty s)
  source _ hrun := absurd hrun List.not_mem_nil
  next := Nat.le_refl 1

end CollectionRun

namespace Store

theorem Gathered.congr (hg : Gathered env st) (hrecords : st'.records = st.records)
    (hleads : st'.leads = st.leads) (hmerges : st'.merges = st.merges)
    (hsources : ∀ s ∈ st.sources, s ∈ st'.sources) : Gathered env st' where
  sound := by
    obtain ⟨hunique, hsourced, howned, hlinkedLead, hlinkedRecord, hgradable⟩ := hg.sound
    refine ⟨?_, fun r hr => ?_, ?_, ?_, ?_, ?_⟩
    · rwa [hrecords]
    · obtain ⟨s, hs, hid⟩ := hsourced r (hrecords ▸ hr)
      exact ⟨s, hsources s hs, hid⟩
    · rwa [hrecords, hleads]
    · unfold LinksIssued
      rwa [hmerges, hleads]
    · rwa [hmerges, hrecords]
    · rwa [hrecords]
  evident := by
    obtain ⟨hprints, hshown, hchained⟩ := hg.evident
    refine ⟨?_, ?_, ?_⟩
    · rwa [hrecords]
    · rwa [hleads, hrecords]
    · rwa [hrecords]
  closed := by
    rw [hrecords]
    exact hg.closed
  derived := by
    intro l hl
    rw [hleads] at hl
    obtain ⟨howner, hcolumns⟩ := hg.derived l hl
    have hcandidates : LeadRepository.candidatesFor st' l.id =
        LeadRepository.candidatesFor st l.id := by
      unfold LeadRepository.candidatesFor
      rw [hrecords]
      refine List.filterMap_congr fun r hr => ?_
      obtain ⟨s, hs, hid⟩ := hg.sound.sourced r (Table.mem_select.mp hr).1
      have hfind : st.sources.find? r.sourceId = some s := Table.find?_eq_some.mpr ⟨hs, hid⟩
      have hfind' : st'.sources.find? r.sourceId = some s :=
        Table.find?_eq_some.mpr ⟨hsources s hs, hid⟩
      simp only [LeadRepository.toCandidate, hfind, hfind']
    rw [hcandidates, hrecords]
    exact ⟨howner, hcolumns⟩

end Store

namespace CollectionRun

variable {runs : List CollectionRun} {run : CollectionRun}

private theorem filed_calls (source : Source) (job : CollectionJob) (records : List RawRecord) :
    (records.map (run.call source job ⟨[], []⟩)).filterMap (IngestCall.filed env) =
      records.filterMap (run.entryOf env) := by
  rw [List.filterMap_map]
  refine List.filterMap_congr fun raw _ => ?_
  have hopen : (run.call source job ⟨[], []⟩ raw).blocked env = false := by
    simp [IngestCall.blocked, call, SuppressionList.blocks, SuppressionList.hit]
  change IngestCall.filed env (run.call source job ⟨[], []⟩ raw) = run.entryOf env raw
  unfold IngestCall.filed entryOf
  rw [hopen]
  cases hg : (run.call source job ⟨[], []⟩ raw).graded env with
  | true =>
      have hok : (validateLead env (normalizeRecord env raw run.config.region)).isOk = true := hg
      rw [if_neg (by decide), if_pos hok]
      rfl
  | false =>
      have hok : ¬(validateLead env (normalizeRecord env raw run.config.region)).isOk = true := by
        rw [Bool.not_eq_true]
        exact hg
      rw [if_pos (by decide), if_neg hok]

/-- A run that was opened for a source without a row: it has got one, and nothing is suppressed. -/
private structure Admitted (run : CollectionRun) (st : Store) (source : Source)
    (suppressions : SuppressionList) (s : Session Store Write RunStats) : Prop where
  id : source.id = st.sources.next
  name : source.name = run.config.name
  priority : source.priority = run.config.priority
  suppressions : suppressions = ⟨[], []⟩
  sources : ∀ r, r ∈ s.view.sources ↔ r = source ∨ r ∈ st.sources
  records : s.view.records = st.records
  leads : s.view.leads = st.leads
  merges : s.view.merges = st.merges
  listed : s.view.suppressions = st.suppressions

private theorem Filed.admits (hf : Filed env runs st)
    (hname : ∀ other ∈ runs, other.config.name ≠ run.config.name) {source : Source}
    {job : CollectionJob} {suppressions : SuppressionList} {s : Session Store Write RunStats}
    (ho : Opened env run st source job suppressions s st') :
    Admitted run st source suppressions s := by
  have hnew : ∀ r ∈ st.sources, r.name ≠ run.config.name := by
    intro r hr
    obtain ⟨other, hother, hsame⟩ := hf.known r hr
    rw [hsame]
    exact hname other hother
  have hup := SourceRepository.upsert_new (s := st.session) ⟨rfl, rfl⟩ run.config.name
    run.config.type run.config.priority run.config.enabled run.config.options hnew
  obtain ⟨hsource, hlist, jobs, results, hview⟩ := ho.view hup (by simp [Write.OfSources])
  have hid : source.id = st.sources.next := congrArg Source.id hsource
  refine ⟨hid, congrArg Source.name hsource, congrArg Source.priority hsource,
    hlist.trans hf.unsuppressed, fun r => ?_, ?_, ?_, ?_, ?_⟩
  · have hsources : s.view.sources = st.sources.put source := by
      rw [hview, hsource]
      rfl
    rw [hsources, Table.mem_put]
    refine or_congr_right ⟨fun hr => hr.1, fun hr => ⟨hr, ?_⟩⟩
    have hlt : r.id < st.sources.next := Table.key_lt_next hr
    change r.id ≠ source.id
    omega
  · rw [hview]
  · rw [hview]
  · rw [hview]
  · rw [hview]

private theorem Admitted.unseen {source : Source} {suppressions : SuppressionList}
    {s : Session Store Write RunStats} (ha : Admitted run st source suppressions s)
    (h : Sound env st) : ∀ r ∈ st.records, r.sourceId ≠ source.id := by
  intro r hr hsame
  obtain ⟨owner, howner, hid⟩ := h.sourced r hr
  have hlt : owner.id < st.sources.next := Table.key_lt_next howner
  have hnext := ha.id
  omega

private theorem Admitted.fills {source : Source} {job : CollectionJob}
    {suppressions : SuppressionList} {s : Session Store Write RunStats}
    (ha : Admitted run st source suppressions s) (hg : Gathered env st)
    (ho : Opened env run st source job suppressions s st')
    (hkeys : (run.recordKeys env).Nodup) (hclear : run.gathers env st = true) :
    Fills env s.view (run.records.map (run.call source job suppressions))
      (attempts env (run.records.map (run.call source job suppressions)) s).view := by
  have hopened : Gathered env s.view :=
    hg.congr ha.records ha.leads ha.merges fun r hr => (ha.sources r).mpr (.inr hr)
  refine attempts_fills ho.healthy hopened (fun call hcall => ?_) ?_ ?_ ?_
  · obtain ⟨raw, -, rfl⟩ := List.mem_map.mp hcall
    exact ⟨(ha.sources _).mpr (.inl rfl), ha.priority.symm⟩
  · refine List.pairwise_map.mpr ((List.pairwise_map.mp hkeys).imp fun hne hsame => ?_)
    exact hne hsame.2
  · rintro r hr call hcall ⟨hsame, -⟩
    obtain ⟨raw, -, rfl⟩ := List.mem_map.mp hcall
    exact ha.unseen hg.sound r (ha.records ▸ hr) hsame
  · unfold gathers at hclear
    rw [ho.opened] at hclear
    exact hclear

private theorem Admitted.entries {source : Source} {job : CollectionJob}
    {s : Session Store Write RunStats} {looped : Store}
    (ha : Admitted run st source ⟨[], []⟩ s)
    (hfills : Fills env s.view (run.records.map (run.call source job ⟨[], []⟩)) looped)
    (sourceId : Nat) : looped.entriesOf sourceId =
      st.entriesOf sourceId ++ if source.id = sourceId then run.entries env else [] := by
  have hbefore : s.view.entriesOf sourceId = st.entriesOf sourceId := by
    unfold entriesOf
    rw [ha.records]
  have hcalls : ∀ call ∈ run.records.map (run.call source job ⟨[], []⟩),
      call.source = source := by
    intro call hcall
    obtain ⟨raw, -, rfl⟩ := List.mem_map.mp hcall
    rfl
  rw [hfills.entries, hbefore]
  split
  · rename_i hid
    rw [List.filter_eq_self.mpr, filed_calls]
    · rfl
    · intro call hcall
      rw [hcalls call hcall, hid, beq_self_eq_true]
  · rename_i hid
    rw [List.filter_eq_nil_iff.mpr]
    · rfl
    · intro call hcall
      rw [hcalls call hcall, beq_iff_eq]
      exact hid

theorem Filed.collect (hf : Filed env runs st)
    (hname : ∀ other ∈ runs, other.config.name ≠ run.config.name)
    (hkeys : (run.recordKeys env).Nodup) (hclear : run.gathers env st = true)
    (h : run.collect env st = some st') : Filed env (run :: runs) st' := by
  obtain ⟨source, job, suppressions, s, ho⟩ := collect_opened h
  have ha := hf.admits hname ho
  have hfills := ha.fills hf.gathered ho hkeys hclear
  obtain ⟨looped, jobs, results, rfl, hlooped⟩ := ho.committed
  have hlisted := ha.suppressions
  rw [← hlooped, hlisted] at hfills
  have hsources : ∀ r, r ∈ looped.sources ↔ r = source ∨ r ∈ st.sources := by
    rw [hfills.sources]
    exact ha.sources
  have hunnamed {r : Source} (hr : r ∈ st.sources) : r.name ≠ source.name := by
    obtain ⟨other, hother, hnamed⟩ := hf.known r hr
    rw [hnamed, ha.name]
    exact hname other hother
  refine ⟨hfills.gathered.congr rfl rfl rfl fun r hr => hr, ?_, fun r hr r' hr' hsame => ?_,
    fun r hr => ?_, fun other hother => ?_, ?_⟩
  · have hsame := hfills.suppressions.trans ha.listed
    rw [← hf.unsuppressed]
    simp only [SuppressionRepository.list, SuppressionRepository.values, hsame]
  · rcases (hsources r).mp hr with rfl | hold <;> rcases (hsources r').mp hr' with rfl | hold'
    · rfl
    · exact absurd hsame.symm (hunnamed hold')
    · exact absurd hsame (hunnamed hold)
    · exact hf.named r hold r' hold' hsame
  · rcases (hsources r).mp hr with rfl | hr
    · exact ⟨run, List.mem_cons_self, ha.name⟩
    · obtain ⟨other, hother, hnamed⟩ := hf.known r hr
      exact ⟨other, List.mem_cons_of_mem _ hother, hnamed⟩
  · have hheld := (hlisted ▸ ha).entries hfills
    rcases List.mem_cons.mp hother with rfl | hother
    · refine ⟨source, (hsources source).mpr (.inl rfl), ha.name, ha.priority,
        (hheld source.id).trans ?_⟩
      have hnone : st.entriesOf source.id = [] := by
        unfold entriesOf
        rw [List.map_eq_nil_iff, List.eq_nil_iff_forall_not_mem]
        intro r hr
        obtain ⟨hr, hsame⟩ := Table.mem_select.mp hr
        exact ha.unseen hf.gathered.sound r hr (by simpa using hsame)
      rw [hnone, if_pos rfl]
      rfl
    · obtain ⟨r, hr, hnamed, hpriority, hbefore⟩ := hf.source other hother
      refine ⟨r, (hsources r).mpr (.inr hr), hnamed, hpriority, (hheld r.id).trans ?_⟩
      have hapart : source.id ≠ r.id := by
        have hlt : r.id < st.sources.next := Table.key_lt_next hr
        have hid := ha.id
        omega
      rw [if_neg hapart, List.append_nil, hbefore]
  · have hnext := hfills.next
    rw [ha.records, List.length_map] at hnext
    have hbefore := hf.next
    rw [List.flatMap_cons, List.length_append]
    change looped.records.next ≤ _
    omega

theorem Filed.collectAll {later : List CollectionRun} (hf : Filed env runs st)
    (hname : later.Pairwise fun a b => a.config.name ≠ b.config.name)
    (hapart : ∀ run ∈ later, ∀ other ∈ runs, other.config.name ≠ run.config.name)
    (hkeys : ∀ run ∈ later, (run.recordKeys env).Nodup)
    (hclear : gathersAll env st later = true)
    (h : CollectionRun.collectAll env st later = some st') :
    Filed env (later.reverse ++ runs) st' := by
  induction later generalizing st runs with
  | nil =>
      obtain rfl : st = st' := by simpa [CollectionRun.collectAll] using h
      exact hf
  | cons run later ih =>
      obtain ⟨hfirst, hname⟩ := List.pairwise_cons.mp hname
      obtain ⟨hapartFirst, hapart⟩ := List.forall_mem_cons.mp hapart
      obtain ⟨hkeysFirst, hkeys⟩ := List.forall_mem_cons.mp hkeys
      obtain ⟨st₁, hrun, hrest⟩ := Option.bind_eq_some_iff.mp h
      simp only [gathersAll, hrun, Option.all_some, Bool.and_eq_true] at hclear
      have hf₁ := hf.collect hapartFirst hkeysFirst hclear.1 hrun
      have hlast := ih hf₁ hname (fun other hother => ?_) hkeys hclear.2 hrest
      · rw [List.reverse_cons, List.append_assoc]
        exact hlast
      · intro before hbefore
        rcases List.mem_cons.mp hbefore with rfl | hbefore
        · exact hfirst other hother
        · exact hapart other hother before hbefore

end CollectionRun

namespace Store

/-- The record in the other store: of the source with the same name, under the same key. -/
def SameRecord (st st' : Store) (r r' : SourceRecord) : Prop :=
  ∃ s ∈ st.sources, ∃ s' ∈ st'.sources, s.id = r.sourceId ∧ s'.id = r'.sourceId ∧
    s.name = s'.name ∧ r.recordKey = r'.recordKey

/-- The same records under leads of the same columns, up to the identifiers. -/
structure SameResult (st st' : Store) : Prop where
  there : ∀ r ∈ st.records, ∃ r' ∈ st'.records, SameRecord st st' r r'
  back : ∀ r' ∈ st'.records, ∃ r ∈ st.records, SameRecord st st' r r'
  housed : ∀ r ∈ st.records, ∃ l ∈ st.leads, r.leadId = some l.id
  housed' : ∀ r' ∈ st'.records, ∃ l' ∈ st'.leads, r'.leadId = some l'.id
  owning : ∀ l ∈ st.leads, ∃ r ∈ st.records, r.leadId = some l.id
  owning' : ∀ l' ∈ st'.leads, ∃ r' ∈ st'.records, r'.leadId = some l'.id
  partition : ∀ a ∈ st.records, ∀ a' ∈ st'.records, SameRecord st st' a a' →
    ∀ b ∈ st.records, ∀ b' ∈ st'.records, SameRecord st st' b b' →
      (a.leadId = b.leadId ↔ a'.leadId = b'.leadId)
  columns : ∀ r ∈ st.records, ∀ r' ∈ st'.records, SameRecord st st' r r' →
    ∀ l ∈ st.leads, ∀ l' ∈ st'.leads, r.leadId = some l.id → r'.leadId = some l'.id →
      l.toLeadPayload = l'.toLeadPayload

theorem SameRecord.symm {r r' : SourceRecord} (h : SameRecord st st' r r') :
    SameRecord st' st r' r := by
  obtain ⟨s, hs, s', hs', hid, hid', hname, hkey⟩ := h
  exact ⟨s', hs', s, hs, hid', hid, hname.symm, hkey.symm⟩

theorem Sound.candidate_of (h : Sound env st) {r : SourceRecord} (hr : r ∈ st.records) :
    ∃ c, LeadRepository.toCandidate st r = some c := by
  obtain ⟨s, hs, hid⟩ := h.sourced r hr
  have hfound : st.sources.find? r.sourceId = some s := Table.find?_eq_some.mpr ⟨hs, hid⟩
  exact ⟨_, by rw [LeadRepository.toCandidate, hfound, Option.map_some]⟩

theorem SameRecord.single (hnamed : SourceRepository.Named st') (h' : Sound env st')
    {r a' b' : SourceRecord} (ha' : a' ∈ st'.records) (hb' : b' ∈ st'.records)
    (ha : SameRecord st st' r a') (hb : SameRecord st st' r b') : a' = b' := by
  obtain ⟨s, hs, s', hs', hid, hid', hname, hkey⟩ := ha
  obtain ⟨t, ht, t', ht', htid, htid', htname, htkey⟩ := hb
  obtain rfl : s = t := Table.eq_of_key hs ht (hid.trans htid.symm)
  obtain rfl : s' = t' := hnamed s' hs' t' ht' (hname.symm.trans htname)
  exact h'.unique a' ha' b' hb' (hid'.symm.trans htid') (hkey.symm.trans htkey)

end Store

namespace CollectionRun

variable {runs runs' : List CollectionRun}

/-- The same runs, at other times. -/
def Again (runs runs' : List CollectionRun) : Prop :=
  ∀ run ∈ runs, ∃ run' ∈ runs', run'.config = run.config ∧ run'.records = run.records

theorem Filed.priority_of (hf : Filed env runs st) {s : Source} (hs : s ∈ st.sources) :
    ∃ run ∈ runs, s.name = run.config.name ∧ s.priority = run.config.priority := by
  obtain ⟨run, hrun, hname⟩ := hf.known s hs
  obtain ⟨t, ht, htname, hpriority, -⟩ := hf.source run hrun
  obtain rfl : t = s := hf.named t ht s hs (htname.trans hname.symm)
  exact ⟨run, hrun, hname, hpriority⟩

section Comparison

variable (hf : Filed env runs st) (hf' : Filed env runs' st') (hagain : Again runs runs')
include hf hf' hagain

private theorem Filed.source_there {s : Source} (hs : s ∈ st.sources) :
    ∃ s' ∈ st'.sources, s'.name = s.name ∧ s'.priority = s.priority ∧
      st'.entriesOf s'.id = st.entriesOf s.id := by
  obtain ⟨run, hrun, hname⟩ := hf.known s hs
  obtain ⟨run', hrun', hconfig, hrecords⟩ := hagain run hrun
  obtain ⟨t, ht, htname, htpriority, htentries⟩ := hf.source run hrun
  obtain ⟨s', hs', hname', hpriority', hentries'⟩ := hf'.source run' hrun'
  obtain rfl : t = s := hf.named t ht s hs (htname.trans hname.symm)
  have hentries : run'.entries env = run.entries env := by
    have hentry : run'.entryOf env = run.entryOf env := by
      funext raw
      simp only [entryOf, hconfig]
    simp only [entries, hrecords, hentry]
  refine ⟨s', hs', ?_, ?_, ?_⟩
  · rw [hname', htname, hconfig]
  · rw [hpriority', htpriority, hconfig]
  · rw [hentries', htentries, hentries]

private theorem Filed.same_source {r r' : SourceRecord} (hsame : SameRecord st st' r r') :
    ∃ s ∈ st.sources, ∃ s' ∈ st'.sources, s.id = r.sourceId ∧ s'.id = r'.sourceId ∧
      s.name = s'.name ∧ s'.priority = s.priority ∧
        st'.entriesOf s'.id = st.entriesOf s.id := by
  obtain ⟨s, hs, s', hs', hid, hid', hname, -⟩ := hsame
  obtain ⟨t', ht', htname, hpriority, hentries⟩ := hf.source_there hf' hagain hs
  obtain rfl : t' = s' := hf'.named t' ht' s' hs' (htname.trans hname)
  exact ⟨s, hs, t', ht', hid, hid', hname, hpriority, hentries⟩

theorem Filed.there {r : SourceRecord} (hr : r ∈ st.records) :
    ∃ r' ∈ st'.records, SameRecord st st' r r' := by
  obtain ⟨s, hs, hid⟩ := hf.gathered.sound.sourced r hr
  obtain ⟨s', hs', hname, -, hentries⟩ := hf.source_there hf' hagain hs
  have hentry : r.entry ∈ st.entriesOf s.id :=
    List.mem_map_of_mem (Table.mem_select.mpr ⟨hr, by simp [hid]⟩)
  rw [← hentries] at hentry
  obtain ⟨r', hr', hsame⟩ := List.mem_map.mp hentry
  obtain ⟨hr', hid'⟩ := Table.mem_select.mp hr'
  have hid'' : r'.sourceId = s'.id := by simpa using hid'
  exact ⟨r', hr', s, hs, s', hs', hid, hid''.symm, hname.symm,
    (congrArg Entry.recordKey hsame).symm⟩

theorem Filed.same_entry {r r' : SourceRecord} (hr : r ∈ st.records) (hr' : r' ∈ st'.records)
    (hsame : SameRecord st st' r r') : r'.entry = r.entry := by
  obtain ⟨s, hs, s', hs', hid, hid', -, -, hentries⟩ := hf.same_source hf' hagain hsame
  obtain ⟨-, -, -, -, -, -, -, hkey⟩ := hsame
  have hentry : r.entry ∈ st.entriesOf s.id :=
    List.mem_map_of_mem (Table.mem_select.mpr ⟨hr, by simp [hid]⟩)
  rw [← hentries] at hentry
  obtain ⟨t', ht', hread⟩ := List.mem_map.mp hentry
  obtain ⟨ht', htid⟩ := Table.mem_select.mp ht'
  have htid' : t'.sourceId = s'.id := by simpa using htid
  have hkey' : t'.recordKey = r'.recordKey := (congrArg Entry.recordKey hread).trans hkey
  rw [← hf'.gathered.sound.unique t' ht' r' hr' (htid'.trans hid') hkey', hread]

private theorem Filed.pairs : Pairs {r | r ∈ st.records} SourceRecord.Meets
    {r' | r' ∈ st'.records} SourceRecord.Meets (SameRecord st st') where
  total r hr := hf.there hf' hagain hr
  single _ _ _ ha' _ hb' h h' := h.single hf'.named hf'.gathered.sound ha' hb' h'
  meet := by
    rintro a ha a' ha' b hb b' hb' hsame hsame' ⟨key, hkey, hkey'⟩
    have hpayload := congrArg Entry.payload (hf.same_entry hf' hagain ha ha' hsame)
    have hpayload' := congrArg Entry.payload (hf.same_entry hf' hagain hb hb' hsame')
    change a'.normalized = a.normalized at hpayload
    change b'.normalized = b.normalized at hpayload'
    refine ⟨key, ?_, ?_⟩
    · rw [hf'.gathered.evident.prints a' ha', hpayload]
      exact (hf.gathered.evident.prints a ha key).mp hkey
    · rw [hf'.gathered.evident.prints b' hb', hpayload']
      exact (hf.gathered.evident.prints b hb key).mp hkey'

theorem Filed.same_owner {a a' b b' : SourceRecord} (ha : a ∈ st.records) (ha' : a' ∈ st'.records)
    (hsame : SameRecord st st' a a') (hb : b ∈ st.records) (hb' : b' ∈ st'.records)
    (hsame' : SameRecord st st' b b') (howner : a.leadId = b.leadId) : a'.leadId = b'.leadId :=
  hf.gathered.evident.chained.transfer hf'.gathered.closed (hf.pairs hf' hagain) ha hb ha' hb'
    hsame hsame' howner

/-- The candidates of a record and of its counterpart. -/
private def SameCandidate (st st' : Store) (c c' : Candidate) : Prop :=
  ∃ r ∈ st.records, ∃ r' ∈ st'.records, SameRecord st st' r r' ∧
    LeadRepository.toCandidate st r = some c ∧ LeadRepository.toCandidate st' r' = some c'

private theorem Filed.same_order (hsmall : st.records.next ≤ originBound)
    (hsmall' : st'.records.next ≤ originBound) {a b a' b' : SourceRecord} (ha : a ∈ st.records)
    (hb : b ∈ st.records) (ha' : a' ∈ st'.records) (hb' : b' ∈ st'.records)
    (hsame : SameRecord st st' a a') (hsame' : SameRecord st st' b b')
    (hsource : a.sourceId = b.sourceId) :
    toLex (originKey (Text.ofNat a.id)) ≤ toLex (originKey (Text.ofNat b.id)) ↔
      toLex (originKey (Text.ofNat a'.id)) ≤ toLex (originKey (Text.ofNat b'.id)) := by
  have hentry := hf.same_entry hf' hagain ha ha' hsame
  have hentry' := hf.same_entry hf' hagain hb hb' hsame'
  obtain ⟨s, hs, s', hs', hid, hid', hname, -, hentries⟩ := hf.same_source hf' hagain hsame
  obtain ⟨t, ht, t', ht', htid, htid', htname, -⟩ := hf.same_source hf' hagain hsame'
  obtain rfl : s = t := Table.eq_of_key hs ht (hid.trans (hsource.trans htid.symm))
  obtain rfl : s' = t' := hf'.named s' hs' t' ht' (hname.symm.trans htname)
  have hbound {st : Store} (hsmall : st.records.next ≤ originBound) {r : SourceRecord}
      (hr : r ∈ st.records) : r.id < originBound := (Table.key_lt_next hr).trans_le hsmall
  have hnodup : (st.entriesOf s.id).Nodup := by
    refine List.Nodup.map_on (fun r hr t ht heq => ?_) ?_
    · obtain ⟨hr, hrid⟩ := Table.mem_select.mp hr
      obtain ⟨ht, htid⟩ := Table.mem_select.mp ht
      have hsame : r.sourceId = t.sourceId := by
        rw [beq_iff_eq] at hrid htid
        rw [hrid, htid]
      exact hf.gathered.sound.unique r hr t ht hsame (congrArg Entry.recordKey heq)
    · exact (st.records.select_sorted _).imp fun hlt heq => by simp [heq] at hlt
  have hin {st : Store} {r : SourceRecord} {sourceId : Nat} (hr : r ∈ st.records)
      (hid : sourceId = r.sourceId) : r ∈ st.records.select fun r => r.sourceId == sourceId :=
    Table.mem_select.mpr ⟨hr, by simp [hid]⟩
  rw [originKey_le (hbound hsmall ha) (hbound hsmall hb),
    originKey_le (hbound hsmall' ha') (hbound hsmall' hb')]
  exact Table.select_aligned hentries.symm hnodup (hin ha hid) (hin hb htid) (hin ha' hid')
    (hin hb' htid') hentry.symm hentry'.symm

private theorem Filed.same_candidate {c c' : Candidate} (hsame : SameCandidate st st' c c') :
    c'.lead.toLeadPayload = c.lead.toLeadPayload ∧ c'.lead.collectedAt = c.lead.collectedAt ∧
      c'.priority = c.priority := by
  obtain ⟨r, hr, r', hr', hrecord, hc, hc'⟩ := hsame
  have hentry := hf.same_entry hf' hagain hr hr' hrecord
  obtain ⟨s, hs, s', hs', hid, hid', -, hpriority, -⟩ := hf.same_source hf' hagain hrecord
  obtain ⟨t, ht, rfl⟩ := LeadRepository.toCandidate_some hc
  obtain ⟨t', ht', rfl⟩ := LeadRepository.toCandidate_some hc'
  obtain rfl : s = t := Option.some.inj ((Table.find?_eq_some.mpr ⟨hs, hid⟩).symm.trans ht)
  obtain rfl : s' = t' := Option.some.inj ((Table.find?_eq_some.mpr ⟨hs', hid'⟩).symm.trans ht')
  exact ⟨congrArg Entry.payload hentry, congrArg Entry.collectedAt hentry, hpriority⟩

private theorem Filed.same_rank
    (hpriority : ∀ a ∈ runs, ∀ b ∈ runs, a.config.priority = b.config.priority →
      a.config.name = b.config.name)
    (hsmall : st.records.next ≤ originBound) (hsmall' : st'.records.next ≤ originBound)
    {a b a' b' : Candidate} (ha : SameCandidate st st' a a') (hb : SameCandidate st st' b b') :
    rank a ≤ rank b ↔ rank a' ≤ rank b' := by
  obtain ⟨hpayload, htime, hfixed⟩ := hf.same_candidate hf' hagain ha
  obtain ⟨hpayload', htime', hfixed'⟩ := hf.same_candidate hf' hagain hb
  obtain ⟨r, hr, r', hr', hrecord, ha, ha'⟩ := ha
  obtain ⟨u, hu, u', hu', hrecord', hb, hb'⟩ := hb
  rw [rank_le, rank_le, hpayload, htime, hfixed, hpayload', htime', hfixed',
    LeadRepository.toCandidate_origin ha, LeadRepository.toCandidate_origin ha',
    LeadRepository.toCandidate_origin hb, LeadRepository.toCandidate_origin hb']
  by_cases hsource : r.sourceId = u.sourceId
  · rw [hf.same_order hf' hagain hsmall hsmall' hr hu hr' hu' hrecord hrecord' hsource]
  · -- different sources have different priorities, which decide
    have hdiffer : a.priority ≠ b.priority := by
      intro hequal
      obtain ⟨s, hs, rfl⟩ := LeadRepository.toCandidate_some ha
      obtain ⟨t, ht, rfl⟩ := LeadRepository.toCandidate_some hb
      obtain ⟨hs, hid⟩ := Table.find?_eq_some.mp hs
      obtain ⟨ht, hid'⟩ := Table.find?_eq_some.mp ht
      obtain ⟨run, hrun, hname, hranked⟩ := hf.priority_of hs
      obtain ⟨other, hother, hname', hranked'⟩ := hf.priority_of ht
      have hequal' : run.config.priority = other.config.priority :=
        hranked.symm.trans (Eq.trans hequal hranked')
      have hsame := hpriority run hrun other hother hequal'
      have hrow := hf.named s hs t ht (hname.trans (hsame.trans hname'.symm))
      exact hsource (hid.symm.trans (Eq.trans (congrArg Source.id hrow) hid'))
    simp only [hdiffer, false_and]

theorem Filed.same_columns
    (hback : Again runs' runs)
    (hpriority : ∀ a ∈ runs, ∀ b ∈ runs, a.config.priority = b.config.priority →
      a.config.name = b.config.name)
    (hsmall : st.records.next ≤ originBound) (hsmall' : st'.records.next ≤ originBound)
    {r r' : SourceRecord} (hr : r ∈ st.records) (hr' : r' ∈ st'.records)
    (hsame : SameRecord st st' r r') {l l' : Lead} (hl : l ∈ st.leads) (hl' : l' ∈ st'.leads)
    (howner : r.leadId = some l.id) (howner' : r'.leadId = some l'.id) :
    l.toLeadPayload = l'.toLeadPayload := by
  have hcolumns := (hf.gathered.derived l hl).2
  have hcolumns' := (hf'.gathered.derived l' hl').2
  apply Option.some.inj
  rw [← hcolumns, ← hcolumns']
  apply mergedColumns_paired (LeadRepository.candidatesFor_numbered st l.id)
    (LeadRepository.candidatesFor_numbered st' l'.id) (SameCandidate st st')
  · intro c hc
    obtain ⟨t, ht, htowner, hcandidate⟩ := LeadRepository.mem_candidatesFor.mp hc
    obtain ⟨t', ht', htsame⟩ := hf.there hf' hagain ht
    have hmoved := hf.same_owner hf' hagain ht ht' htsame hr hr' hsame
      (htowner.trans howner.symm)
    obtain ⟨c', hcandidate'⟩ := hf'.gathered.sound.candidate_of ht'
    exact ⟨c', LeadRepository.mem_candidatesFor.mpr
      ⟨t', ht', hmoved.trans howner', hcandidate'⟩, t, ht, t', ht', htsame, hcandidate, hcandidate'⟩
  · intro c' hc'
    obtain ⟨t', ht', htowner', hcandidate'⟩ := LeadRepository.mem_candidatesFor.mp hc'
    obtain ⟨t, ht, htsame⟩ := hf'.there hf hback ht'
    have hmoved := hf'.same_owner hf hback ht' ht htsame hr' hr hsame.symm
      (htowner'.trans howner'.symm)
    obtain ⟨c, hcandidate⟩ := hf.gathered.sound.candidate_of ht
    exact ⟨c, LeadRepository.mem_candidatesFor.mpr ⟨t, ht, hmoved.trans howner, hcandidate⟩,
      t, ht, t', ht', htsame.symm, hcandidate, hcandidate'⟩
  · intro c c' hpair
    exact (hf.same_candidate hf' hagain hpair).1
  · intro a _ a' _ hpair b _ b' _ hpair'
    exact hf.same_rank hf' hagain hpriority hsmall hsmall' hpair hpair'

theorem Filed.sameResult (hback : Again runs' runs)
    (hpriority : ∀ a ∈ runs, ∀ b ∈ runs, a.config.priority = b.config.priority →
      a.config.name = b.config.name)
    (hsmall : st.records.next ≤ originBound) (hsmall' : st'.records.next ≤ originBound) :
    SameResult st st' where
  there _ hr := hf.there hf' hagain hr
  back r' hr' := by
    obtain ⟨r, hr, hsame⟩ := hf'.there hf hback hr'
    exact ⟨r, hr, hsame.symm⟩
  housed := hf.gathered.sound.owned
  housed' := hf'.gathered.sound.owned
  owning l hl := (hf.gathered.derived l hl).1
  owning' l' hl' := (hf'.gathered.derived l' hl').1
  partition _ ha _ ha' hsame _ hb _ hb' hsame' :=
    ⟨hf.same_owner hf' hagain ha ha' hsame hb hb' hsame',
      hf'.same_owner hf hback ha' ha hsame.symm hb' hb hsame'.symm⟩
  columns _ hr _ hr' hsame _ hl _ hl' howner howner' :=
    hf.same_columns hf' hagain hback hpriority hsmall hsmall' hr hr' hsame hl hl' howner howner'

end Comparison

private theorem filed_two {X Y : CollectionRun} (hname : X.config.name ≠ Y.config.name)
    (hX : (X.recordKeys env).Nodup) (hY : (Y.recordKeys env).Nodup)
    (hclear : gathersAll env .empty [X, Y] = true)
    (hrun : CollectionRun.collectAll env .empty [X, Y] = some st) : Filed env [Y, X] st := by
  refine (Filed.empty env).collectAll ?_ ?_ ?_ hclear hrun
  · simpa using hname
  · simp
  · simp [hX, hY]

end CollectionRun

open CollectionRun

/-- Two sources in one order and in the other, whenever each record finds what it shares a key
with gathered. -/
theorem collection_order_does_not_matter (env : Platform) {X Y X' Y' : CollectionRun}
    (hsameX : X'.config = X.config ∧ X'.records = X.records)
    (hsameY : Y'.config = Y.config ∧ Y'.records = Y.records)
    (hname : X.config.name ≠ Y.config.name) (hpriority : X.config.priority ≠ Y.config.priority)
    (hX : (X.recordKeys env).Nodup) (hY : (Y.recordKeys env).Nodup)
    (hcount : X.records.length + Y.records.length < originBound)
    (hclear : gathersAll env .empty [X, Y] = true)
    (hclear' : gathersAll env .empty [Y', X'] = true) {st st' : Store}
    (hrun : CollectionRun.collectAll env .empty [X, Y] = some st)
    (hrun' : CollectionRun.collectAll env .empty [Y', X'] = some st') : SameResult st st' := by
  have hX' : (X'.recordKeys env).Nodup := by
    unfold recordKeys
    rw [hsameX.1, hsameX.2]
    exact hX
  have hY' : (Y'.recordKeys env).Nodup := by
    unfold recordKeys
    rw [hsameY.1, hsameY.2]
    exact hY
  have hf := filed_two hname hX hY hclear hrun
  have hname' : Y'.config.name ≠ X'.config.name := by
    rw [hsameX.1, hsameY.1]
    exact hname.symm
  have hf' := filed_two hname' hY' hX' hclear' hrun'
  refine hf.sameResult hf' ?_ ?_ ?_ ?_ ?_
  · intro run hrun
    rcases List.mem_pair.mp hrun with rfl | rfl
    · exact ⟨Y', by simp, hsameY⟩
    · exact ⟨X', by simp, hsameX⟩
  · intro run hrun
    rcases List.mem_pair.mp hrun with rfl | rfl
    · exact ⟨X, by simp, hsameX.1.symm, hsameX.2.symm⟩
    · exact ⟨Y, by simp, hsameY.1.symm, hsameY.2.symm⟩
  · simp [hpriority, hpriority.symm]
  · have hnext := hf.next
    simp only [List.flatMap_cons, List.flatMap_nil, List.length_append, List.length_nil] at hnext
    omega
  · have hnext := hf'.next
    simp only [List.flatMap_cons, List.flatMap_nil, List.length_append, List.length_nil, hsameX.2,
      hsameY.2] at hnext
    omega

def CollectionRun.plain (name : String) (priority : Int)
    (records : List (List (String × String))) : CollectionRun where
  config := ⟨name.toList, "csv".toList, true, priority, none, []⟩
  jobId := none
  records := records.map fun fields =>
    ⟨⟨name.toList, none⟩, fields.map fun p => (p.1.toList, some p.2.toList), 1⟩
  startedAt := 1
  finishedAt := 2

def numberAndAddress : CollectionRun :=
  .plain "csv" 0 [[("phone", "+358401")], [("email", "a@x.fi")]]

def addressOnly : CollectionRun := .plain "web" 1 [[("email", "a@x.fi")]]

def addressWithNumber : CollectionRun :=
  .plain "web" 1 [[("email", "a@x.fi"), ("phone", "+358401")]]

theorem collection_order_does_not_matter_address : ∃ st st',
    CollectionRun.collectAll .ascii .empty [numberAndAddress, addressOnly] = some st ∧
      CollectionRun.collectAll .ascii .empty [addressOnly, numberAndAddress] = some st' ∧
        SameResult st st' := by
  obtain ⟨st, hrun⟩ := Option.isSome_iff_exists.mp (show (CollectionRun.collectAll .ascii .empty
    [numberAndAddress, addressOnly]).isSome = true by decide +kernel)
  obtain ⟨st', hrun'⟩ := Option.isSome_iff_exists.mp (show (CollectionRun.collectAll .ascii .empty
    [addressOnly, numberAndAddress]).isSome = true by decide +kernel)
  exact ⟨st, st', hrun, hrun', collection_order_does_not_matter .ascii ⟨rfl, rfl⟩ ⟨rfl, rfl⟩
    (by decide) (by decide) (by decide +kernel) (by decide +kernel) (by decide) (by decide +kernel)
    (by decide +kernel) hrun hrun'⟩

/-- The number and the address have leads of their own when the record with both comes last. -/
theorem collection_order_matters :
    ¬∀ (env : Platform) (X Y X' Y' : CollectionRun),
      (X'.config = X.config ∧ X'.records = X.records) →
      (Y'.config = Y.config ∧ Y'.records = Y.records) → X.config.name ≠ Y.config.name →
      X.config.priority ≠ Y.config.priority → (X.recordKeys env).Nodup →
      (Y.recordKeys env).Nodup → X.records.length + Y.records.length < originBound →
      ∀ st st', CollectionRun.collectAll env .empty [X, Y] = some st →
        CollectionRun.collectAll env .empty [Y', X'] = some st' → SameResult st st' := by
  intro h
  have hsplit : (CollectionRun.collectAll .ascii .empty
      [numberAndAddress, addressWithNumber]).any (fun st => decide (∃ a ∈ st.records,
        ∃ b ∈ st.records, a.leadId ≠ b.leadId)) = true := by
    decide +kernel
  have hjoined : (CollectionRun.collectAll .ascii .empty
      [addressWithNumber, numberAndAddress]).any (fun st => decide (∀ a ∈ st.records,
        ∀ b ∈ st.records, a.leadId = b.leadId)) = true := by
    decide +kernel
  obtain ⟨st, hrun, hsplit⟩ := (Option.any_eq_true _ _).mp hsplit
  obtain ⟨st', hrun', hjoined⟩ := (Option.any_eq_true _ _).mp hjoined
  obtain ⟨a, ha, b, hb, hapart⟩ := of_decide_eq_true hsplit
  have htogether := of_decide_eq_true hjoined
  have hresult := h .ascii numberAndAddress addressWithNumber numberAndAddress addressWithNumber
    ⟨rfl, rfl⟩ ⟨rfl, rfl⟩ (by decide) (by decide) (by decide +kernel) (by decide +kernel)
    (by decide) st st' hrun hrun'
  obtain ⟨a', ha', hsame⟩ := hresult.there a ha
  obtain ⟨b', hb', hsame'⟩ := hresult.there b hb
  exact hapart ((hresult.partition a ha a' ha' hsame b hb b' hb' hsame').mpr
    (htogether a' ha' b' hb'))

end LeadPipe
