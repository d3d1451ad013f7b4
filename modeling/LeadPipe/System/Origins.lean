import LeadPipe.Framework.Books
import LeadPipe.Privacy.Contacts
import LeadPipe.System.Scope

/-!
# Where the data comes from

A stored record is, as a whole, one that a committed collection has taken from the source of the
record and that the list it loaded when it was opened did not suppress, and every value of a lead is
a value of such a record. No step of the system makes up a value, and nothing is left of a collection
that was rolled back or of a record that was refused.
-/

namespace LeadPipe

open Framework

/-- A value of one column. -/
inductive Datum where
  | field (f : SingleField) (value : Text)
  | website (value : Text)
  | websiteDomain (value : Text)
  | extra (key value : Text)

namespace LeadPayload

def Carries (p : LeadPayload) : Datum → Prop
  | .field f value => f.get p = some value
  | .website value => p.website = some value
  | .websiteDomain value => p.websiteDomain = some value
  | .extra key value => (key, some value) ∈ p.extra

/-- Every value of the payload is one of a payload that is known for some source. -/
def Drawn (known : Nat → LeadPayload → Prop) (p : LeadPayload) : Prop :=
  ∀ d, p.Carries d → ∃ sourceId q, known sourceId q ∧ q.Carries d

theorem Drawn.of_known {known : Nat → LeadPayload → Prop} {sourceId : Nat} {p : LeadPayload}
    (h : known sourceId p) : p.Drawn known :=
  fun _ hd => ⟨sourceId, p, h, hd⟩

end LeadPayload

section Merging

theorem Dict.mem_set {α : Type} {d : Dict α} {k : Text} {v : α} {p : Text × α}
    (h : p ∈ d.set k v) : p = (k, v) ∨ p ∈ d := by
  unfold Dict.set at h
  split at h
  · obtain ⟨q, hq, rfl⟩ := List.mem_map.mp h
    split
    · exact .inl rfl
    · exact .inr hq
  · rcases List.mem_append.mp h with h | h
    · exact .inr h
    · exact .inl (List.mem_singleton.mp h)

theorem Dict.mem_update {α : Type} {d e : Dict α} {p : Text × α} (h : p ∈ d.update e) :
    p ∈ e ∨ p ∈ d := by
  induction e generalizing d with
  | nil => exact .inr h
  | cons q e ih =>
      have hrest : p ∈ Dict.update (d.set q.1 q.2) e := h
      rcases ih hrest with he | hset
      · exact .inl (List.mem_cons_of_mem _ he)
      · rcases Dict.mem_set hset with rfl | hd
        · exact .inl List.mem_cons_self
        · exact .inr hd

theorem mem_mergedExtra {cs : List Candidate} {p : Text × Option Text} (h : p ∈ mergedExtra cs) :
    ∃ c ∈ cs, p ∈ c.lead.extra := by
  unfold mergedExtra at h
  rw [List.foldl_reverse] at h
  induction cs with
  | nil => cases h
  | cons c cs ih =>
      rcases Dict.mem_update h with hc | hrest
      · exact ⟨c, List.mem_cons_self, hc⟩
      · obtain ⟨c', hc', hp⟩ := ih hrest
        exact ⟨c', List.mem_cons_of_mem _ hc', hp⟩

theorem merge_carries {cs : List Candidate} {merged : MergedLead} (h : merge cs = some merged)
    {d : Datum} (hd : merged.lead.toLeadPayload.Carries d) :
    ∃ c ∈ cs, c.lead.toLeadPayload.Carries d := by
  obtain ⟨top, -, rfl⟩ := merge_some h
  have hwon {f : LeadPayload → Option Text} {v : Text}
      (hv : winningValue f (ranked rank cs) = some v) :
      ∃ c ∈ cs, f c.lead.toLeadPayload = some v := by
    obtain ⟨c, hc, hcv⟩ := Option.bind_eq_some_iff.mp hv
    exact ⟨c, mem_ranked.mp (mem_of_firstWith hc).1, hcv⟩
  cases d with
  | field f value =>
      refine hwon (f := f.get) ?_
      cases f <;> exact hd
  | website value => exact hwon hd
  | websiteDomain value =>
      obtain ⟨c, hc, hcv⟩ := Option.bind_eq_some_iff.mp hd
      exact ⟨c, mem_ranked.mp (mem_of_firstWith hc).1, hcv⟩
  | extra key value =>
      obtain ⟨c, hc, hcv⟩ := mem_mergedExtra hd
      exact ⟨c, mem_ranked.mp hc, hcv⟩

end Merging

/-- Records and leads show nothing that is not known for a source. -/
structure Store.Drawn (known : Nat → LeadPayload → Prop) (st : Store) : Prop where
  records : ∀ r ∈ st.records, known r.sourceId r.normalized
  leads : ∀ l ∈ st.leads, l.toLeadPayload.Drawn known

def Write.Drawn (known : Nat → LeadPayload → Prop) : Write → Prop
  | insertRecord r | updateRecord r => known r.sourceId r.normalized
  | insertLead l | updateLead l => l.toLeadPayload.Drawn known
  | _ => True

section Calls

variable {env : Platform} {known more : Nat → LeadPayload → Prop} {st : Store} {call : IngestCall}

theorem merge_drawn {cs : List Candidate} {merged : MergedLead} (h : merge cs = some merged)
    (hcs : ∀ c ∈ cs, c.lead.toLeadPayload.Drawn known) :
    merged.lead.toLeadPayload.Drawn known := by
  intro d hd
  obtain ⟨c, hc, hcd⟩ := merge_carries h hd
  exact hcs c hc d hcd

namespace Store.Drawn

theorem mono (h : st.Drawn known) (hmore : ∀ sourceId p, known sourceId p → more sourceId p) :
    st.Drawn more := by
  refine ⟨fun r hr => hmore _ _ (h.records r hr), fun l hl d hd => ?_⟩
  obtain ⟨sourceId, p, hknown, hp⟩ := h.leads l hl d hd
  exact ⟨sourceId, p, hmore sourceId p hknown, hp⟩

theorem write (h : st.Drawn known) {w : Write} (hw : w.Drawn known) : (w.apply st).Drawn known := by
  cases w with
  | insertRecord row =>
      refine ⟨fun r hr => ?_, h.leads⟩
      rcases Table.mem_put.mp hr with rfl | ⟨hr, -⟩
      · exact hw
      · exact h.records r hr
  | updateRecord row =>
      refine ⟨fun r hr => ?_, h.leads⟩
      rcases Table.mem_replace.mp hr with ⟨rfl, -⟩ | ⟨hr, -⟩
      · exact hw
      · exact h.records r hr
  | insertLead row =>
      refine ⟨h.records, fun l hl => ?_⟩
      rcases Table.mem_put.mp hl with rfl | ⟨hl, -⟩
      · exact hw
      · exact h.leads l hl
  | updateLead row =>
      refine ⟨h.records, fun l hl => ?_⟩
      rcases Table.mem_replace.mp hl with ⟨rfl, -⟩ | ⟨hl, -⟩
      · exact hw
      · exact h.leads l hl
  | claimRecord recordId leadId =>
      refine ⟨fun r hr => ?_, h.leads⟩
      simp only [Write.apply, Table.mem_update] at hr
      obtain ⟨a, ha, rfl⟩ := hr
      have hknown : known a.sourceId a.normalized := h.records a ha
      split
      · exact hknown
      · exact hknown
  | _ => exact ⟨h.records, h.leads⟩

theorem replay (h : st.Drawn known) {ws : List Write} (hws : ∀ w ∈ ws, w.Drawn known) :
    (Session.replay ws st).Drawn known := by
  induction ws generalizing st with
  | nil => exact h
  | cons w ws ih =>
      exact ih (h.write (hws w List.mem_cons_self)) fun w hw => hws w (List.mem_cons_of_mem _ hw)

theorem remerged (h : st.Drawn known) (hcall : known call.source.id (call.lead env).toLeadPayload)
    {leadRow row : Lead} {recordId : Nat}
    (hrow : st.remerged env call leadRow recordId = .ok row) : row.toLeadPayload.Drawn known := by
  obtain ⟨merged, graded, hmerge, -, rfl⟩ := (Store.remerged_ok env st call).mp hrow
  refine merge_drawn hmerge fun c hc => ?_
  rcases List.mem_append.mp hc with hc | hc
  · obtain ⟨r, hr, -, hrc⟩ := LeadRepository.mem_candidatesFor.mp (List.mem_of_mem_filter hc)
    obtain ⟨source, -, rfl⟩ := LeadRepository.toCandidate_some hrc
    exact .of_known (h.records r hr)
  · rw [List.mem_singleton.mp hc]
    exact .of_known hcall

end Store.Drawn

theorem upsertWrite_drawn (st : Store) (validation : LeadValidation)
    (hcall : known call.source.id (call.lead env).toLeadPayload) :
    (st.upsertWrite env call validation).Drawn known := by
  have hknown : known (st.upserted env call validation).sourceId (call.lead env).toLeadPayload := by
    rw [st.upserted_sourceId]
    exact hcall
  unfold Store.upsertWrite
  split
  · exact hknown
  · exact hknown

theorem linkWrites_drawn {leadId recordId : Nat} {rule : Text} {confidence : ℚ}
    {needsReview claim : Bool} :
    ∀ w ∈ st.linkWrites leadId recordId rule confidence needsReview claim, w.Drawn known := by
  unfold Store.linkWrites
  split
  · simp [Write.Drawn]
  · cases claim <;> simp [Write.Drawn]

theorem flagWrites_drawn {best : Option (Lead × MatchResult)} {recordId : Nat} :
    ∀ w ∈ st.flagWrites best recordId, w.Drawn known := by
  unfold Store.flagWrites
  split
  · split
    · simp
    · exact linkWrites_drawn
  · simp

theorem Places.drawn {validation : LeadValidation} {ws : List Write}
    (hp : Places env st call validation ws)
    (hstored : ((st.upsertWrite env call validation).apply st).Drawn known)
    (hcall : known call.source.id (call.lead env).toLeadPayload) : ∀ w ∈ ws, w.Drawn known := by
  intro w hw
  cases hp with
  | join decided rebuilds =>
      rcases List.mem_cons.mp hw with rfl | hw
      · exact hstored.remerged hcall rebuilds
      · exact linkWrites_drawn w hw
  | refresh decided rebuilds =>
      rw [List.mem_singleton.mp hw]
      exact hstored.remerged hcall rebuilds
  | found decided merges =>
      rcases List.mem_cons.mp hw with rfl | hw
      · exact merge_drawn merges (by simpa using LeadPayload.Drawn.of_known hcall)
      · exact linkWrites_drawn w hw

theorem ingest_drawn
    (hcall : call.blocked env = false → known call.source.id (call.lead env).toLeadPayload) :
    Txn.Upholds (fun st (_ : RunStats) => st.Drawn known) (ingest env call)
      (fun _ st _ => st.Drawn known) fun st _ => st.Drawn known := by
  refine .settled (ingest_rules env (Txn.Composed.rules _ _) call) (fun s a s' hopen hs hrun => ?_)
    fun s e s' hopen hs hrun => ?_
  · obtain ⟨ws, hi, hview, -⟩ := ingest_completes env hopen hrun
    rw [hview]
    cases hi with
    | suppressed => exact hs
    | @placed validation placed flags unblocked validates places flagged =>
        have hcarried := hcall unblocked
        have hstored := hs.write (upsertWrite_drawn s.view validation hcarried)
        rw [flagged]
        refine hstored.replay fun w hw => ?_
        rcases List.mem_append.mp hw with hw | hw
        · exact places.drawn hstored hcarried w hw
        · exact flagWrites_drawn w hw
  · obtain ⟨ws, ha, hview, -⟩ := ingest_raises env hopen hrun
    rw [hview]
    cases ha with
    | ungraded => exact hs
    | unmerged unblocked => exact hs.write (upsertWrite_drawn s.view _ (hcall unblocked))

end Calls

/-- A record of the collection that is not suppressed comes to this. -/
def Collection.Offers (env : Platform) (config : SourceConfig) (suppressions : SuppressionList)
    (collection : Collection) (p : LeadPayload) : Prop :=
  ∃ raw fault, (CollectedItem.record raw, fault) ∈ collection.items ∧
    (normalizeRecord env raw config.region).toLeadPayload = p ∧ suppressions.blocks p = none

section Run

variable {env : Platform} {known : Nat → LeadPayload → Prop} {suppressions : SuppressionList}

theorem Store.Drawn.ofRuns {st : Store} (h : st.Drawn known) {w : Write} (hw : w.OfRuns) :
    (w.apply st).Drawn known := by
  cases w <;> first | exact ⟨h.records, h.leads⟩ | exact hw.elim

theorem openRun_drawn (known : Nat → LeadPayload → Prop) (suppressions : SuppressionList)
    (config : SourceConfig) (jobId : Option Nat) (now : Instant) :
    Txn.Upholds (fun st _ => st.Drawn known ∧ SuppressionRepository.list st = suppressions)
      (openRun config jobId now) (fun p st _ => st.Drawn known ∧ p.2.2 = suppressions)
      fun _ _ => True := by
  have hruns {α : Type} {m : Db α} (h : Txn.Composed Write.OfRuns m) : Txn.Upholds
      (fun st _ => st.Drawn known ∧ SuppressionRepository.list st = suppressions) m
      (fun _ st _ => st.Drawn known ∧ SuppressionRepository.list st = suppressions)
      fun _ _ => True := by
    refine (Txn.Upholds.composed h (fun st _ w hst hw => ⟨hst.1.ofRuns hw, ?_⟩) fun _ _ _ hst =>
      hst).conseq (fun _ _ hst => hst) (fun _ _ _ hst => hst) fun _ _ _ => trivial
    cases w <;> exact hst.2
  exact (openRun_upholds (hruns (upsertSource_composed config))
    (fun _ _ => hruns (Db.insert_composed _ _ _ fun _ => trivial)) (fun _ _ _ _ _ h => h)
      (fun _ _ _ _ => trivial) fun _ _ => hruns (assign_composed _ _)).conseq (fun _ _ h => h)
        (fun _ _ _ h => ⟨h.1.1, h.2.trans h.1.2⟩) fun _ _ h => h

/-- What is known after a collection: what was known, and for its source what it offers. -/
def Learnt (env : Platform) (config : SourceConfig) (suppressions : SuppressionList)
    (collection : Collection) (known : Nat → LeadPayload → Prop) (source : Source)
    (sourceId : Nat) (p : LeadPayload) : Prop :=
  known sourceId p ∨ (sourceId = source.id ∧ collection.Offers env config suppressions p)

theorem runCollection_drawn {before : Store} (hlinked : before.OwnersLinked)
    (config : SourceConfig) (jobId : Option Nat) (collection : Collection)
    (startedAt finishedAt : Instant) :
    Txn.Upholds (fun st _ => before.SameLeads st ∧ st.Drawn known ∧
        SuppressionRepository.list st = suppressions)
      (runCollection env config jobId collection startedAt finishedAt)
      (fun _ st _ => ∃ source ∈ st.sources, source.name = config.name ∧
        st.Drawn (Learnt env config suppressions collection known source)) fun _ _ => True := by
  have hopened := ((openRun_scoped hlinked config jobId startedAt).and
    (openRun_drawn known suppressions config jobId startedAt)).conseq
      (fun _ _ h => h) (fun _ _ _ h => h) fun _ _ _ => trivial
  refine .bind hopened fun opened => ?_
  obtain ⟨source, job, loaded⟩ := opened
  have hitems : Txn.Upholds (fun st _ =>
      Scoped before source none st ∧ st.Drawn (Learnt env config loaded collection known source))
      (Txn.attemptEach (processItem env source config job.id loaded) RunStats.countError
        collection.items)
      (fun _ st _ => Scoped before source none st ∧
        st.Drawn (Learnt env config loaded collection known source)) fun _ _ => True := by
    refine .attemptEach (fun item hitem =>
      (processItem_scoped env config job.id loaded item.1).and ?_) fun _ _ h => h
    obtain ⟨i, fault⟩ := item
    cases i with
    | error message => exact .note fun _ _ h => h
    | record raw =>
        refine ingest_drawn fun hopen => .inr ⟨rfl, raw, fault, hitem, rfl, ?_⟩
        simpa [IngestCall.blocked] using hopen
  have hdrawn : Txn.Upholds
      (fun st _ => st.Drawn (Learnt env config loaded collection known source))
      (closeRun job collection.ending finishedAt)
      (fun _ st _ => st.Drawn (Learnt env config loaded collection known source)) fun _ _ => True :=
    (Txn.Upholds.composed (closeRun_composed job _ _) (fun _ _ _ hst hw => hst.ofRuns hw)
      fun _ _ _ hst => hst).conseq (fun _ _ hst => hst) (fun _ _ _ hst => hst) fun _ _ _ => trivial
  have hscoped : Txn.Upholds
      (fun st _ => Scoped before source none st ∧ source.name = config.name)
      (closeRun job collection.ending finishedAt)
      (fun _ st _ => Scoped before source none st ∧ source.name = config.name) fun _ _ => True :=
    ofJobs_scoped (closeRun_ofJobs job _ _) source config.name
  refine .bind ((hitems.frame (source.name = config.name ∧ loaded = suppressions)).conseq ?_
    (fun _ _ _ h => h) fun _ _ _ => trivial) fun _ => ?_
  · rintro st n ⟨⟨hst, hname⟩, hknown, rfl⟩
    exact ⟨⟨hst, hknown.mono fun _ _ hp => .inl hp⟩, hname, rfl⟩
  · refine ((hscoped.and hdrawn).frame (loaded = suppressions)).conseq ?_ ?_ fun _ _ _ => trivial
    · exact fun st n h => ⟨⟨⟨h.1.1, h.2.1⟩, h.1.2⟩, h.2.2⟩
    · rintro - st n ⟨⟨⟨hst, hname⟩, hknown⟩, rfl⟩
      exact ⟨source, hst.stored, hname, hknown⟩

end Run

/-- The operation is a collection that is committed, from the source with the name, and offers
this. -/
def Operation.Brings (env : Platform) (name : Text) (p : LeadPayload) (st : Store) :
    Operation → Prop
  | transaction (.collect config jobId collection startedAt finishedAt) fault =>
      config.name = name ∧
        (Txn.commit (runCollection env config jobId collection startedAt finishedAt)
          (Transaction.session st fault)).isOk = true ∧
          collection.Offers env config (SuppressionRepository.list st) p
  | _ => False

/-- One of the operations has brought this from the source with the number. -/
def Brought (env : Platform) (ops : List Operation) (sourceId : Nat) (p : LeadPayload) : Prop :=
  ∃ source ∈ (execute (Operation.step env) .empty ops).sources, source.id = sourceId ∧
    ∃ pre op post, ops = pre ++ op :: post ∧
      op.Brings env source.name p (execute (Operation.step env) .empty pre)

section System

variable {env : Platform} {known : Nat → LeadPayload → Prop} {st : Store}

theorem Store.Drawn.deleteLead (h : st.Drawn known) (leadId : Nat) :
    (st.deleteLead leadId).Drawn known :=
  ⟨fun r hr => h.records r (Table.mem_erase.mp hr).1,
    fun l hl => h.leads l (Table.mem_erase.mp hl).1⟩

theorem Store.Drawn.commit (h : st.Drawn known) (hlinked : st.OwnersLinked) (t : Transaction)
    {fault : Option Nat} {st' : Store}
    (hcommit : Txn.commit (t.program env) (Transaction.session st fault) = .ok st') :
    st'.Drawn fun sourceId p => known sourceId p ∨ ∃ source ∈ st'.sources, source.id = sourceId ∧
      (Operation.transaction t fault).Brings env source.name p st := by
  have hkept (ht : ∀ config jobId collection startedAt finishedAt,
      t ≠ .collect config jobId collection startedAt finishedAt) : st'.Drawn known := by
    obtain ⟨-, -, hst⟩ := (Txn.Upholds.composed (P := fun st _ => st.Drawn known)
      (t.program_composed env ht) (fun _ _ _ hst hw => hst.ofRuns hw) fun _ _ _ hst =>
        hst).commits (s := Transaction.session st fault) h hcommit
    exact hst
  cases t with
  | collect config jobId collection startedAt finishedAt =>
      obtain ⟨-, -, source, hsource, hname, hst⟩ := (runCollection_drawn hlinked config jobId
        collection startedAt finishedAt).commits (s := Transaction.session st fault)
          ⟨⟨rfl, rfl, rfl⟩, h, rfl⟩ hcommit
      refine hst.mono fun sourceId p hp => ?_
      rcases hp with hp | ⟨hid, hoffers⟩
      · exact .inl hp
      · refine .inr ⟨source, hsource, hid.symm, hname.symm, ?_, hoffers⟩
        exact congrArg Except.isOk hcommit
  | _ => exact (hkept (by simp)).mono fun _ _ hp => .inl hp

variable (env) in
theorem Operation.drawn_step (hlinked : st.OwnersLinked) (h : st.Drawn known) (op : Operation) :
    (op.step env st).Drawn fun sourceId p => known sourceId p ∨
      ∃ source ∈ (op.step env st).sources, source.id = sourceId ∧
        op.Brings env source.name p st := by
  have hmore {st' : Store} (hst : st'.Drawn known) : st'.Drawn fun sourceId p => known sourceId p ∨
      ∃ source ∈ st'.sources, source.id = sourceId ∧ op.Brings env source.name p st :=
    hst.mono fun _ _ hp => .inl hp
  cases op with
  | transaction t fault =>
      simp only [step, Transaction.perform]
      cases hcommit : Txn.commit (t.program env) (Transaction.session st fault) with
      | ok st' => exact h.commit hlinked t hcommit
      | error e => exact hmore ⟨h.records, h.leads⟩
  | claim worker now locked =>
      refine hmore ?_
      change (Queue.claim st worker now locked).2.Drawn known
      unfold Queue.claim
      split
      · exact h
      · exact ⟨h.records, h.leads⟩
  | fail job error now jitter =>
      refine hmore ?_
      change (Queue.fail st job error now jitter).2.Drawn known
      unfold Queue.fail
      split
      · exact ⟨h.records, h.leads⟩
      · exact ⟨h.records, h.leads⟩
  | heartbeat | recoverStale | unsuppress => exact hmore ⟨h.records, h.leads⟩
  | deleteLead leadId suppressed =>
      exact hmore (deleteLeadRoute_keeps env (fun _ leadId hst => hst.deleteLead leadId)
        (fun _ _ hst => ⟨hst.records, hst.leads⟩) h leadId suppressed)
  | purge cutoff =>
      exact hmore (Store.purge_keeps (fun _ leadId hst => hst.deleteLead leadId) h cutoff)
  | suppress kind value reason =>
      obtain ⟨suppressions, hkeep⟩ := SuppressionRepository.add_keeps env st kind value reason
      refine hmore ?_
      change (SuppressionRepository.add env st kind value reason).Drawn known
      rw [hkeep]
      exact ⟨h.records, h.leads⟩
  | removeValue kind value =>
      exact hmore (SuppressionRepository.removeValue_keeps env
        (fun _ _ hst => ⟨hst.records, hst.leads⟩) h kind value)

theorem Brought.snoc {ops : List Operation} {sourceId : Nat} {p : LeadPayload}
    (h : Brought env ops sourceId p) (op : Operation) : Brought env (ops ++ [op]) sourceId p := by
  obtain ⟨source, hsource, hid, pre, brings, post, hops, hbrings⟩ := h
  have hconsistent : (execute (Operation.step env) .empty ops).Consistent :=
    Store.Reached.consistent ⟨ops, rfl⟩
  obtain ⟨source', hsource', hid', hname'⟩ := op.keeps_source hconsistent hsource
  refine ⟨source', ?_, hid'.trans hid, pre, brings, post ++ [op], by simp [hops], ?_⟩
  · rw [execute_append]
    exact hsource'
  · rw [hname']
    exact hbrings

/-- Every stored record is one that a collection from its source has brought, and every value of
every lead is a value of such a record. -/
theorem leads_show_what_was_collected (ops : List Operation) :
    (execute (Operation.step env) .empty ops).Drawn (Brought env ops) := by
  induction ops using List.reverseRecOn with
  | nil => exact ⟨fun r hr => absurd hr (Table.not_mem_empty r),
      fun l hl => absurd hl (Table.not_mem_empty l)⟩
  | append_singleton ops op ih =>
      have hlinked : (execute (Operation.step env) .empty ops).OwnersLinked :=
        Store.Reached.ownersLinked ⟨ops, rfl⟩
      have hstep := op.drawn_step env hlinked ih
      have hrun : execute (Operation.step env) .empty (ops ++ [op]) =
          op.step env (execute (Operation.step env) .empty ops) := execute_append _ ops [op]
      rw [hrun]
      refine hstep.mono fun sourceId p hp => ?_
      rcases hp with hp | ⟨source, hsource, hid, hbrings⟩
      · exact hp.snoc op
      · rw [← hrun] at hsource
        exact ⟨source, hsource, hid, ops, op, [], rfl, hbrings⟩

end System

end LeadPipe
