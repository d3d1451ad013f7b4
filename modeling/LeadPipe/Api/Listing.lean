import Mathlib.Data.List.Flatten
import Mathlib.Order.OrderDual
import LeadPipe.Db.Models
import LeadPipe.Framework.Paging

/-!
# Listing leads and jobs

The keyset pages of `app/repositories/leads.py` and `jobs.py`, the export loop over them and the
clients that follow `next_cursor` of `GET /api/leads` and `GET /api/jobs`. A page reads one
committed state; what is committed between two pages is arbitrary.
-/

namespace LeadPipe

open Framework

structure LeadFilter where
  source : Option Text := none
  country : Option Text := none
  city : Option Text := none
  validationStatus : Option ValidationStatus := none
  createdFrom : Option Instant := none
  createdTo : Option Instant := none

/-- A committed state, with the constraints of the schema that a listing depends on. `createdAt`
is the column of `leads` that no collection reads. -/
structure Snapshot where
  store : Store
  createdAt : Nat → Instant
  leads_from_one : ∀ lead ∈ store.leads, 1 ≤ lead.id
  jobs_sourced : ∀ job ∈ store.jobs, (store.sources.find? job.sourceId).isSome
  results_unique : ∀ r ∈ store.results, ∀ r' ∈ store.results, r.jobId = r'.jobId → r = r'

/-- `if filters.name:`: an empty text asks for nothing. -/
def asked (filter : Option Text) (condition : Text → Bool) : Bool :=
  match filter with
  | some value => value.isEmpty || condition value
  | none => true

structure LeadExport where
  lead : Lead
  sources : Finset Text
  deriving DecidableEq

namespace LeadRepository

/-- `_source_names`, in no particular order. -/
def sourceNames (st : Store) (leadId : Nat) : Finset Text :=
  ((st.records.select fun r => r.leadId == some leadId).filterMap fun r =>
    (st.sources.find? r.sourceId).map Source.name).toFinset

section Conditions

variable (env : Platform) (sqlLower : Text → Text) (snap : Snapshot)

/-- `_conditions`; a `NULL` column equals nothing. `sqlLower` is the database's `lower`. -/
def conditions (filters : LeadFilter) (lead : Lead) : Bool :=
  asked filters.country (fun country => lead.country == some country) &&
    asked filters.city (fun city => lead.city.map sqlLower == some (env.unicode.lower city)) &&
    filters.validationStatus.all (fun status => lead.validationStatus == status) &&
    filters.createdFrom.all (fun start => start ≤ snap.createdAt lead.id) &&
    filters.createdTo.all (fun stop => snap.createdAt lead.id ≤ stop) &&
    asked filters.source fun name =>
      snap.store.records.rows.any fun r => r.leadId == some lead.id &&
        (snap.store.sources.find? r.sourceId).any fun source => source.name == name

def exported (lead : Lead) : LeadExport := ⟨lead, sourceNames snap.store lead.id⟩

def page (filters : LeadFilter) (limit afterId : Nat) : List LeadExport :=
  ((snap.store.leads.select fun lead =>
    afterId < lead.id && conditions env sqlLower snap filters lead).take limit).map (exported snap)

/-- The rows of one full scan. -/
def matching (filters : LeadFilter) : List LeadExport :=
  (snap.store.leads.select (conditions env sqlLower snap filters)).map (exported snap)

end Conditions

/-- `iter_export`, one snapshot for each page it reads: what it yields, and whether it returns. -/
def iterExport (env : Platform) (sqlLower : Text → Text) (filters : LeadFilter)
    (batchSize : Nat) : List Snapshot → Nat → List LeadExport × Bool
  | [], _ => ([], false)
  | snap :: rest, afterId =>
      let rows := page env sqlLower snap filters batchSize afterId
      match rows.getLast? with
      | none => ([], true)
      | some last =>
          if rows.length < batchSize then (rows, true)
          else
            let (more, ended) := iterExport env sqlLower filters batchSize rest last.lead.id
            (rows ++ more, ended)

end LeadRepository

structure JobRow where
  job : CollectionJob
  sourceName : Text
  result : Option CollectionJobResult
  deriving DecidableEq

namespace JobRepository

/-- The joins of the job queries: the source, and its result or `NULL`. -/
def joined (st : Store) (source : Option Text) (job : CollectionJob) : List JobRow :=
  match st.sources.find? job.sourceId with
  | none => []
  | some row =>
      if source.all fun name => row.name == name then
        match st.results.select fun r => r.jobId == job.id with
        | [] => [⟨job, row.name, none⟩]
        | results => results.map fun r => ⟨job, row.name, some r⟩
      else []

def page (st : Store) (limit : Nat) (beforeId : Option Nat) (status : Option JobStatus)
    (source : Option Text) : List JobRow :=
  ((st.jobs.select fun job => beforeId.all (fun before => job.id < before) &&
    status.all (fun wanted => job.status == wanted)).reverse.flatMap (joined st source)).take limit

/-- The rows of one full scan. -/
def matching (status : Option JobStatus) (source : Option Text) (snap : Snapshot) :
    List JobRow :=
  (snap.store.jobs.select fun job =>
    status.all (fun wanted => job.status == wanted)).reverse.flatMap (joined snap.store source)

end JobRepository

structure ApiPage (α : Type) where
  items : List α
  limit : Nat
  nextCursor : Option Nat

/-- A client that asks for the next page as long as there is a cursor: the items it has seen, and
whether it is through. -/
def follow {α : Type} (request : Snapshot → Option Nat → ApiPage α) :
    List Snapshot → Option Nat → List α × Bool
  | [], _ => ([], false)
  | snap :: rest, cursor =>
      let answer := request snap cursor
      match answer.nextCursor with
      | none => (answer.items, true)
      | some next =>
          let (more, ended) := follow request rest (some next)
          (answer.items ++ more, ended)

/-- Reading page by page is reading once: in order, in a state that does not change all of it, and
in changing states nothing twice and once what is there throughout. -/
structure ScansOnce {α : Type} (read : List Snapshot → List α × Bool)
    (matching : Snapshot → List α) (id : α → Nat) (before : Nat → Nat → Prop) : Prop where
  ordered : ∀ snaps, (read snaps).1.Pairwise fun a b => before (id a) (id b)
  sound : ∀ snaps, ∀ row ∈ (read snaps).1, ∃ snap ∈ snaps, row ∈ matching snap
  unchanged : ∀ snap, read (.replicate ((matching snap).length + 1) snap) = (matching snap, true)
  once : ∀ snaps k, (∀ snap ∈ snaps, ∃ row ∈ matching snap, id row = k) →
    (read snaps).2 = true → ((read snaps).1.map id).count k = 1

section Reading

variable {α κ : Type} [LinearOrder κ] {id : α → Nat} {ofId : Nat → κ}
  {matching : Snapshot → List α} {limit : Nat}

variable (id) in
theorem scansOnce_readPages (hinj : Function.Injective ofId)
    (hordered : Ordered (fun row => ofId (id row)) matching) (hlimit : 1 ≤ limit)
    (cursor : Option κ)
    (hstart : ∀ snap, ∀ row ∈ matching snap, behind cursor (ofId (id row)) = true) :
    ScansOnce (fun snaps => readPages (fun row => ofId (id row)) matching limit snaps cursor)
      matching id fun a b => ofId a < ofId b where
  ordered snaps := readPages_sorted hordered hlimit
  sound snaps row hrow := (readPages_subset hlimit hrow).1
  unchanged snap := by
    have hall : (matching snap).filter (fun row => behind cursor (ofId (id row))) =
        matching snap := List.filter_eq_self.mpr (hstart snap)
    rw [readPages_replicate hordered hlimit (by rw [hall]; exact Nat.lt_succ_self _), hall]
  once snaps k hstays hended := by
    have hk : behind cursor (ofId k) = true := by
      cases snaps with
      | nil => cases hended
      | cons snap rest =>
          obtain ⟨row, hrow, rfl⟩ := hstays snap List.mem_cons_self
          exact hstart snap row hrow
    have hstays' : ∀ snap ∈ snaps, ∃ row ∈ matching snap, ofId (id row) = ofId k := by
      intro snap hsnap
      obtain ⟨row, hrow, rfl⟩ := hstays snap hsnap
      exact ⟨row, hrow, rfl⟩
    have hcount := readPages_count hordered hlimit hstays' hk hended
    have hmap (rows : List α) : rows.map (fun row => ofId (id row)) = (rows.map id).map ofId :=
      (List.map_map).symm
    rwa [hmap, List.count_map_of_injective _ _ hinj] at hcount

end Reading

namespace LeadRepository

variable (env : Platform) (sqlLower : Text → Text) (filters : LeadFilter)

theorem matching_ordered : Ordered (fun row : LeadExport => row.lead.id)
    fun snap => matching env sqlLower snap filters := by
  intro snap
  unfold matching
  rw [List.pairwise_map]
  exact Table.select_sorted _ _

theorem page_eq (snap : Snapshot) (limit afterId : Nat) :
    page env sqlLower snap filters limit afterId =
      Framework.page (fun row : LeadExport => row.lead.id)
        (fun snap => matching env sqlLower snap filters) limit (some afterId) snap := by
  unfold page Framework.page matching Table.select
  rw [List.filter_map, List.filter_filter, List.map_take]
  rfl

theorem behind_start (snap : Snapshot) :
    ∀ row ∈ matching env sqlLower snap filters, behind (some 0) row.lead.id = true := by
  intro row hrow
  obtain ⟨lead, hlead, rfl⟩ := List.mem_map.mp hrow
  have hone := snap.leads_from_one lead (Table.mem_select.mp hlead).1
  exact decide_eq_true hone

theorem iterExport_eq {batchSize : Nat} (hsize : 1 ≤ batchSize) (snaps : List Snapshot)
    (afterId : Nat) :
    iterExport env sqlLower filters batchSize snaps afterId =
      readPages (fun row : LeadExport => row.lead.id)
        (fun snap => matching env sqlLower snap filters) batchSize snaps (some afterId) := by
  induction snaps generalizing afterId with
  | nil => rfl
  | cons snap rest ih =>
      rw [iterExport, readPages_cons, page_eq]
      set rows := Framework.page (fun row : LeadExport => row.lead.id)
        (fun snap => matching env sqlLower snap filters) batchSize (some afterId) snap
      cases hlast : rows.getLast? with
      | none =>
          have hnil : rows = [] := List.getLast?_eq_none_iff.mp hlast
          rw [hnil]
          simp [Nat.pos_of_ne_zero (Nat.one_le_iff_ne_zero.mp hsize)]
      | some last =>
          dsimp only
          by_cases hshort : rows.length < batchSize
          · rw [if_pos hshort, if_pos hshort]
          · rw [if_neg hshort, if_neg hshort, ih]
            rfl

end LeadRepository

namespace JobRepository

variable (status : Option JobStatus) (source : Option Text)

theorem mem_joined {st : Store} {job : CollectionJob} {row : JobRow}
    (h : row ∈ joined st source job) : row.job = job := by
  unfold joined at h
  split at h
  · cases h
  · split at h
    · split at h
      · rw [List.mem_singleton.mp h]
      · obtain ⟨r, -, rfl⟩ := List.mem_map.mp h
        rfl
    · cases h

theorem joined_pairwise (snap : Snapshot) (job : CollectionJob) (R : JobRow → JobRow → Prop) :
    (joined snap.store source job).Pairwise R := by
  unfold joined
  split
  · exact .nil
  · split
    · split
      · exact List.pairwise_singleton _ _
      · rw [List.pairwise_map]
        refine (Table.select_sorted _ _).imp_of_mem fun ha hb hlt => ?_
        obtain ⟨ha, hjob⟩ := Table.mem_select.mp ha
        obtain ⟨hb, hjob'⟩ := Table.mem_select.mp hb
        have hsame := snap.results_unique _ ha _ hb
          ((eq_of_beq hjob).trans (eq_of_beq hjob').symm)
        rw [hsame] at hlt
        exact absurd hlt (lt_irrefl _)
    · exact .nil

theorem matching_ordered :
    Ordered (fun row : JobRow => OrderDual.toDual row.job.id) (matching status source) := by
  intro snap
  unfold matching
  rw [List.pairwise_flatMap, List.pairwise_reverse]
  refine ⟨fun job _ => joined_pairwise source snap job _, (Table.select_sorted _ _).imp ?_⟩
  intro a b hlt x hx y hy
  change y.job.id < x.job.id
  rw [mem_joined source hx, mem_joined source hy]
  exact hlt

theorem filter_flatMap_joined (st : Store) (wanted : Nat → Bool) (jobs : List CollectionJob) :
    (jobs.flatMap (joined st source)).filter (fun row => wanted row.job.id) =
      (jobs.filter fun job => wanted job.id).flatMap (joined st source) := by
  induction jobs with
  | nil => rfl
  | cons job jobs ih =>
      rw [List.flatMap_cons, List.filter_append, ih]
      by_cases h : wanted job.id = true
      · rw [List.filter_cons_of_pos (p := fun job : CollectionJob => wanted job.id) h, List.flatMap_cons]
        refine congrArg (· ++ _) (List.filter_eq_self.mpr fun row hrow => ?_)
        rwa [mem_joined source hrow]
      · rw [List.filter_cons_of_neg (p := fun job : CollectionJob => wanted job.id) h]
        refine (congrArg (· ++ _) (List.filter_eq_nil_iff.mpr fun row hrow => ?_)).trans
          (List.nil_append _)
        rwa [mem_joined source hrow]

theorem page_eq (snap : Snapshot) (limit : Nat) (beforeId : Option Nat) :
    page snap.store limit beforeId status source =
      Framework.page (fun row : JobRow => OrderDual.toDual row.job.id) (matching status source)
        limit (beforeId.map OrderDual.toDual) snap := by
  have hbehind (k : Nat) : behind (beforeId.map OrderDual.toDual) (OrderDual.toDual k) =
      beforeId.all fun before => k < before := by
    cases beforeId <;> rfl
  unfold page Framework.page matching Table.select
  simp only [hbehind]
  rw [filter_flatMap_joined source snap.store fun k => beforeId.all fun before => k < before,
    List.filter_reverse, List.filter_filter]

end JobRepository

theorem iterExport_scansOnce (env : Platform) (sqlLower : Text → Text) (filters : LeadFilter)
    {batchSize : Nat} (hsize : 1 ≤ batchSize) :
    ScansOnce (fun snaps => LeadRepository.iterExport env sqlLower filters batchSize snaps 0)
      (fun snap => LeadRepository.matching env sqlLower snap filters)
      (fun row => row.lead.id) (· < ·) := by
  have hread := scansOnce_readPages (fun row : LeadExport => row.lead.id)
    Function.injective_id (LeadRepository.matching_ordered env sqlLower filters) hsize (some 0)
    (LeadRepository.behind_start env sqlLower filters)
  have hloop : (fun snaps => LeadRepository.iterExport env sqlLower filters batchSize snaps 0) =
      fun snaps => readPages (fun row : LeadExport => row.lead.id)
        (fun snap => LeadRepository.matching env sqlLower snap filters) batchSize snaps (some 0) :=
    funext fun snaps => LeadRepository.iterExport_eq env sqlLower filters hsize snaps 0
  rw [hloop]
  exact hread

end LeadPipe
