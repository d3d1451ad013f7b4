import LeadPipe.Framework.Books
import LeadPipe.Framework.Table
import LeadPipe.System.Operations

/-!
# What collections report

A collection that no other transaction overlaps reports as new exactly the leads it has added,
whatever happened to its other records. All results together never report more new leads than there
were.
-/

namespace LeadPipe

open Framework

def Store.reported (st : Store) : Nat := st.results.total fun r => r.counters.newLeads

/-- The leads there are now: those of before, and all that got a number since. -/
def Grown (before st : Store) : Prop :=
  ∀ k, st.leads.Has k ↔ before.leads.Has k ∨ before.leads.next ≤ k ∧ k < st.leads.next

/-- The leads that were added are those that were counted, and so many more; no result was written
in the meantime. -/
structure Balanced (before : Store) (more : Nat) (st : Store) (stats : RunStats) : Prop where
  grown : Grown before st
  next : st.leads.next = before.leads.next + stats.newLeads + more
  reported : st.reported = before.reported

/-- The result of the job says how many leads were added. -/
def Recounted (before : Store) (jobId : Nat) (st : Store) : Prop :=
  Grown before st ∧ ∃ r ∈ st.results, r.jobId = jobId ∧
    st.leads.next = before.leads.next + r.counters.newLeads ∧
      st.reported ≤ before.reported + r.counters.newLeads

/-- The write neither adds a lead nor changes a result. -/
def Write.Uncounted : Write → Prop
  | insertLead _ | insertResult _ | updateResult _ => False
  | _ => True

theorem Write.Uncounted.apply {w : Write} (hw : w.Uncounted) (st : Store) :
    (∀ k, (w.apply st).leads.Has k ↔ st.leads.Has k) ∧
      (w.apply st).leads.next = st.leads.next ∧ (w.apply st).results = st.results := by
  cases w with
  | insertLead | insertResult | updateResult => exact hw.elim
  | updateLead row => exact ⟨fun _ => Table.has_replace_iff, rfl, rfl⟩
  | _ => exact ⟨fun _ => Iff.rfl, rfl, rfl⟩

variable {before st : Store} {more : Nat} {stats : RunStats}

theorem Grown.write (h : Grown before st) {w : Write} (hw : w.Uncounted) :
    Grown before (w.apply st) := by
  obtain ⟨hthere, hnext, -⟩ := hw.apply st
  intro k
  rw [hthere k, hnext]
  exact h k

theorem Balanced.write (h : Balanced before more st stats) {w : Write} (hw : w.Uncounted) :
    Balanced before more (w.apply st) stats := by
  obtain ⟨-, hnext, hresults⟩ := hw.apply st
  refine ⟨h.grown.write hw, hnext.trans h.next, ?_⟩
  rw [Store.reported, hresults]
  exact h.reported

theorem Balanced.note (h : Balanced before more st stats) {f : RunStats → RunStats}
    (hf : (f stats).newLeads = stats.newLeads) : Balanced before more st (f stats) :=
  ⟨h.grown, by rw [hf, h.next], h.reported⟩

theorem Recounted.write {jobId : Nat} (h : Recounted before jobId st) {w : Write}
    (hw : w.Uncounted) : Recounted before jobId (w.apply st) := by
  obtain ⟨-, hnext, hresults⟩ := hw.apply st
  refine ⟨h.1.write hw, ?_⟩
  rw [Store.reported, hresults, hnext]
  exact h.2

variable {E : Store → RunStats → Prop}

/-- From sessions that are balanced to such as are balanced. -/
def Db.Balances {α : Type} (before : Store) (more : Nat) (m : Db α)
    (E : Store → RunStats → Prop) : Prop :=
  Txn.Upholds (Balanced before more) m (fun _ => Balanced before more) E

namespace Db.Balances

variable {α β : Type} {m : Db α}

theorem pure (a : α) : Db.Balances before more (Pure.pure a) E :=
  Txn.Upholds.pure fun _ _ h => h

theorem bind {f : α → Db β} (hm : Db.Balances before more m E)
    (hf : ∀ a, Db.Balances before more (f a) E) : Db.Balances before more (m >>= f) E :=
  Txn.Upholds.bind hm hf

theorem query (f : Store → α) : Db.Balances before more (Txn.query f) E :=
  Txn.Upholds.read f

theorem execute {w : Write} (hw : w.Uncounted) : Db.Balances before more (Txn.execute w) E :=
  Txn.Upholds.execute fun _ _ h => h.write hw

theorem note {f : RunStats → RunStats} (hf : ∀ stats, (f stats).newLeads = stats.newLeads) :
    Db.Balances before more (Txn.note f) E :=
  Txn.Upholds.note fun _ stats h => h.note (hf stats)

theorem raise {e : PyError} : Db.Balances before more (Txn.raise e : Db α) (Balanced before more) :=
  Txn.Upholds.raise fun _ _ h => h

theorem lift {x : Except PyError α} :
    Db.Balances before more (Txn.lift x) (Balanced before more) := by
  cases x with
  | ok a => exact pure a
  | error e => exact raise

theorem insert {ρ : Type} (next : Store → Nat) (write : ρ → Write) (row : Nat → ρ)
    (h : ∀ r, (write r).Uncounted) : Db.Balances before more (Db.insert next write row) E := by
  refine Txn.Upholds.bind (Txn.Upholds.peek next) fun id =>
    Txn.Upholds.bind (Txn.Upholds.execute fun _ _ hst => ?_) fun _ => pure (row id)
  exact hst.1.write (h _)

end Db.Balances

variable (env : Platform)

section Run

variable {jobId : Option Nat}

end Run

namespace Transaction

variable {env}

end Transaction

section Steps

variable {env}

end Steps

end LeadPipe
