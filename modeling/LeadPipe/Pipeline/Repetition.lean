import LeadPipe.Pipeline.Collections
import LeadPipe.Pipeline.Rerun

/-!
# A second collection adds nothing

Once a source's records have been collected, each of them has a row with a lead, and it keeps one
whatever else is collected. So collecting them again writes to the rows that are there.
-/

namespace LeadPipe

open Framework

variable {env : Platform} {st st' : Store} {s : Session Store Write RunStats}

open Store

/-- The source with the name has this identifier, and its records under the keys have leads. -/
structure Harvested (st : Store) (name : Text) (sourceId : Nat) (keys : List Text) : Prop where
  anchored : st.Anchored
  named : SourceRepository.Named st
  source : ∃ r ∈ st.sources, r.id = sourceId ∧ r.name = name
  housed : ∀ key ∈ keys, st.Housed sourceId key

theorem attempts_housed (h : s.Healthy) (ha : s.view.Anchored) (calls : List IngestCall)
    (herrors : (attempts env calls s).notes.errors = s.notes.errors)
    (hsuppressed : (attempts env calls s).notes.suppressed = s.notes.suppressed) :
    ∀ call ∈ calls, (attempts env calls s).view.Housed call.source.id (call.recordKey env) := by
  induction calls generalizing s with
  | nil => exact fun call hcall => absurd hcall List.not_mem_nil
  | cons first calls ih =>
      obtain ⟨hhealthy, houtcome⟩ := attempt_outcome env h first
      obtain ⟨hless, hless', hsettles⟩ := attempt_counts env h first
      obtain ⟨hrest, hrest'⟩ := attempts_counts env hhealthy calls
      have hanchored := ha.outcome houtcome
      change (attempts env calls (attempt env first s)).notes.errors = _ at herrors
      change (attempts env calls (attempt env first s)).notes.suppressed = _ at hsuppressed
      have hquiet : (attempt env first s).notes.errors = s.notes.errors := by omega
      have hquiet' : (attempt env first s).notes.suppressed = s.notes.suppressed := by omega
      intro call hcall
      rcases List.mem_cons.mp hcall with rfl | hcall
      · obtain ⟨validation, row, hs⟩ := hsettles hquiet hquiet'
        have hkeep := attempts_outcome env
          (I := fun st => st.Anchored ∧ st.Housed call.source.id (call.recordKey env))
          hhealthy ⟨hanchored, ha.housed hs⟩
          (fun _ _ _ hst ho => ⟨hst.1.outcome ho, hst.2.outcome hst.1 ho⟩) calls
        exact hkeep.2.2
      · exact ih hhealthy hanchored (by omega) (by omega) call hcall

theorem attempts_add_nothing (h : s.Healthy) (ha : s.view.Anchored) (calls : List IngestCall)
    (hh : ∀ call ∈ calls, s.view.Housed call.source.id (call.recordKey env)) :
    (attempts env calls s).notes.newLeads = s.notes.newLeads ∧
      SameRows s.view (attempts env calls s).view := by
  induction calls generalizing s with
  | nil => exact ⟨rfl, .refl _⟩
  | cons first calls ih =>
      obtain ⟨hhealthy, houtcome⟩ := attempt_outcome env h first
      have hfirst := hh first List.mem_cons_self
      have hcount : (attempt env first s).notes.newLeads = s.notes.newLeads := by
        unfold attempt
        rcases hrun : ingest env first s with ⟨e | a, s'⟩
        · change s'.notes.newLeads = _
          exact hfirst.newLeads h hrun ha
        · exact hfirst.newLeads h hrun ha
      obtain ⟨hcounts, hrows⟩ := ih hhealthy (ha.outcome houtcome) fun call hcall =>
        (hh call (List.mem_cons_of_mem _ hcall)).outcome ha houtcome
      exact ⟨hcounts.trans hcount, (houtcome.sameRows hfirst ha).trans hrows⟩

namespace CollectionRun

variable {run : CollectionRun} {source : Source} {calls : List IngestCall} {name : Text}
  {sourceId : Nat} {keys : List Text}

theorem Collects.anchored (hc : Collects env run st source calls s st') (ha : st.Anchored) :
    s.view.Anchored :=
  ha.congr hc.records hc.leads hc.merges

theorem Collects.sources (hc : Collects env run st source calls s st') :
    st'.sources = s.view.sources := by
  have hloop := attempts_outcome env (I := fun st => st.sources = s.view.sources) hc.healthy rfl
    (fun _ _ _ hst ho => ho.sources.trans hst) calls
  exact hc.sources'.trans hloop.2

theorem Collects.harvested (hc : Collects env run st source calls s st')
    (h : Harvested st name sourceId keys) : Harvested st' name sourceId keys := by
  obtain ⟨-, hanchored, hhoused⟩ := attempts_outcome env
    (I := fun st => st.Anchored ∧ ∀ key ∈ keys, st.Housed sourceId key) hc.healthy
    ⟨hc.anchored h.anchored, fun key hkey => (h.housed key hkey).congr hc.records hc.leads⟩
    (fun _ _ _ hst ho =>
      ⟨hst.1.outcome ho, fun key hkey => (hst.2 key hkey).outcome hst.1 ho⟩) calls
  refine ⟨hanchored.congr hc.records' hc.leads' hc.merges', ?_, ?_, fun key hkey =>
    (hhoused key hkey).congr hc.records' hc.leads'⟩
  · exact (hc.upserts.congr hc.sources).named
  · obtain ⟨r, hr, hid, hname⟩ := h.source
    obtain ⟨r', hr', hid', hname'⟩ := hc.upserts.kept r hr
    rw [hc.sources]
    exact ⟨r', hr', hid'.trans hid, hname'.trans hname⟩

theorem harvested_collectAll {runs : List CollectionRun} (h : Harvested st name sourceId keys)
    (hruns : collectAll env st runs = some st') : Harvested st' name sourceId keys := by
  induction runs generalizing st with
  | nil =>
      obtain rfl : st = st' := by simpa [collectAll] using hruns
      exact h
  | cons run runs ih =>
      obtain ⟨st₁, hrun, hrest⟩ := Option.bind_eq_some_iff.mp hruns
      obtain ⟨source, calls, s, hc⟩ := collect_collects h.named hrun
      exact ih (hc.harvested h) hrest

def keyOf (env : Platform) (config : SourceConfig) (source : Source) (raw : RawRecord) : Text :=
  (RunConfig.mk source config.region ⟨[], []⟩).recordKey env raw

theorem keys_same {config : SourceConfig} {source source' : Source} {X X' : List RawRecord}
    (h : List.Forall₂ (fun raw raw' => raw'.source = raw.source ∧ raw'.fields = raw.fields) X X') :
    X.map (keyOf env config source) = X'.map (keyOf env config source') := by
  induction h with
  | nil => rfl
  | @cons raw raw' X X' hsame _ ih =>
      have hkey : keyOf env config source' raw' = keyOf env config source raw :=
        RunConfig.recordKey_same env ⟨source, config.region, ⟨[], []⟩⟩ hsame.1 hsame.2
      rw [List.map_cons, List.map_cons, hkey, ih]

theorem Collects.harvest (hc : Collects env run st source calls s st') (ha : st.Anchored)
    (hclean : (run.stats env st).errors = 0 ∧ (run.stats env st).suppressed = 0) :
    Harvested st' run.config.name source.id
      (run.records.map (keyOf env run.config source)) := by
  rw [hc.stats] at hclean
  have hanchored := hc.anchored ha
  have hhoused := attempts_housed hc.healthy hanchored calls
    (by rw [hclean.1, hc.unnoted]) (by rw [hclean.2, hc.unnoted])
  obtain ⟨-, hloop⟩ := attempts_outcome env hc.healthy hanchored
    (fun _ _ _ hst ho => hst.outcome ho) calls
  refine ⟨hloop.congr hc.records' hc.leads' hc.merges', (hc.upserts.congr hc.sources).named, ?_, ?_⟩
  · rw [hc.sources]
    exact ⟨source, hc.upserts.found.1, rfl, hc.upserts.found.2⟩
  · intro key hkey
    obtain ⟨raw, hraw, rfl⟩ := List.mem_map.mp hkey
    obtain ⟨job, suppressions, rfl⟩ := hc.calls_eq
    exact (hhoused _ (List.mem_map_of_mem hraw)).congr hc.records' hc.leads'

theorem Collects.adds_nothing (hc : Collects env run st source calls s st')
    (h : Harvested st run.config.name sourceId (run.records.map (keyOf env run.config source))) :
    (run.stats env st).newLeads = 0 ∧ SameRows st st' := by
  have hsource : source.id = sourceId := by
    obtain ⟨r, hr, hid, hname⟩ := h.source
    obtain ⟨r', hr', hid', hname'⟩ := hc.upserts.kept r hr
    have hsame := hc.upserts.named source hc.upserts.found.1 r' hr'
      (hc.upserts.found.2.trans (hname'.trans hname).symm)
    rw [hsame, hid', hid]
  have hhoused : ∀ call ∈ calls, s.view.Housed call.source.id (call.recordKey env) := by
    obtain ⟨job, suppressions, rfl⟩ := hc.calls_eq
    intro call hcall
    obtain ⟨raw, hraw, rfl⟩ := List.mem_map.mp hcall
    have hkey := (h.housed _ (List.mem_map_of_mem hraw)).congr hc.records hc.leads
    rw [← hsource] at hkey
    exact hkey
  obtain ⟨hcount, hrows⟩ := attempts_add_nothing hc.healthy (hc.anchored h.anchored) calls hhoused
  constructor
  · rw [hc.stats, hcount, hc.unnoted]
  · refine ⟨fun id => ?_, fun id => ?_⟩
    · rw [hc.records', hrows.records, hc.records]
    · rw [hc.leads', hrows.leads, hc.leads]

end CollectionRun

/-- The records of a source, collected without an error and with none suppressed, and collected
again after any other collections: no record and no lead is created. -/
theorem second_collection_adds_nothing (env : Platform) {w : World} (hw : w.Reachable env)
    {first again : CollectionRun} {others : List CollectionRun} {st₁ st₂ st₃ : Store}
    (hfirst : first.collect env w.store = some st₁)
    (hclean : (first.stats env w.store).errors = 0 ∧ (first.stats env w.store).suppressed = 0)
    (hothers : CollectionRun.collectAll env st₁ others = some st₂)
    (hconfig : again.config = first.config)
    (hrecords : List.Forall₂ (fun raw raw' => raw'.source = raw.source ∧ raw'.fields = raw.fields)
      first.records again.records)
    (hagain : again.collect env st₂ = some st₃) :
    (again.stats env st₂).newLeads = 0 ∧ Store.SameRows st₂ st₃ := by
  obtain ⟨source, calls, s, hc⟩ := CollectionRun.collect_collects hw.named hfirst
  have hharvest := CollectionRun.harvested_collectAll (hc.harvest hw.anchored hclean) hothers
  obtain ⟨source', calls', s', hc'⟩ := CollectionRun.collect_collects hharvest.named hagain
  rw [CollectionRun.keys_same hrecords, ← hconfig] at hharvest
  exact hc'.adds_nothing hharvest

def harvest : CollectionRun where
  config := ⟨"csv".toList, "csv".toList, true, 0, none, []⟩
  jobId := none
  records := [⟨⟨"csv".toList, none⟩, [("email".toList, some "a@x.fi".toList)], 1⟩]
  startedAt := 1
  finishedAt := 2

def otherHarvest : CollectionRun where
  config := ⟨"web".toList, "html".toList, true, 1, none, []⟩
  jobId := none
  records := [⟨⟨"web".toList, none⟩, [("email".toList, some "a@x.fi".toList)], 3⟩,
    ⟨⟨"web".toList, none⟩, [("email".toList, some "b@x.fi".toList)], 3⟩]
  startedAt := 3
  finishedAt := 4

def secondHarvest : CollectionRun :=
  { harvest with
    records := [⟨⟨"csv".toList, none⟩, [("email".toList, some "a@x.fi".toList)], 5⟩] }

theorem second_collection_adds_nothing_after_another :
    ∃ st₁ st₂ st₃, harvest.collect .ascii .empty = some st₁ ∧
      CollectionRun.collectAll .ascii st₁ [otherHarvest] = some st₂ ∧
      secondHarvest.collect .ascii st₂ = some st₃ ∧
      (secondHarvest.stats .ascii st₂).newLeads = 0 ∧ Store.SameRows st₂ st₃ := by
  have hruns : ((harvest.collect .ascii .empty).any fun st₁ =>
      (CollectionRun.collectAll .ascii st₁ [otherHarvest]).any fun st₂ =>
        (secondHarvest.collect .ascii st₂).isSome) = true := by
    decide +kernel
  obtain ⟨st₁, hfirst, hruns⟩ := (Option.any_eq_true _ _).mp hruns
  obtain ⟨st₂, hothers, hagain⟩ := (Option.any_eq_true _ _).mp hruns
  obtain ⟨st₃, hagain⟩ := Option.isSome_iff_exists.mp hagain
  have hempty : World.Reachable .ascii .empty := ⟨[], rfl⟩
  refine ⟨st₁, st₂, st₃, hfirst, hothers, hagain, ?_⟩
  exact second_collection_adds_nothing .ascii hempty hfirst (by decide +kernel) hothers rfl
    (.cons ⟨rfl, rfl⟩ .nil) hagain

end LeadPipe
