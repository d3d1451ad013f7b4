import LeadPipe.Pipeline.Integrity

/-!
# The keys a store has rows for

A call adds the key of its record and no other, and it never takes a key away. Whether it writes
a new row or an old one depends on that alone.
-/

namespace LeadPipe

open Framework

namespace Store

variable {env : Platform} {st st' : Store} {call : IngestCall} {validation : LeadValidation}
  {row : Lead}

def HasKey (st : Store) (sourceId : Nat) (recordKey : Text) : Prop :=
  ∃ r ∈ st.records, r.sourceId = sourceId ∧ r.recordKey = recordKey

def knows (env : Platform) (st : Store) (call : IngestCall) : Bool :=
  (st.recordOf env call).isSome

theorem knows_iff : st.knows env call = true ↔ st.HasKey call.source.id (call.recordKey env) := by
  unfold knows
  cases h : st.recordOf env call with
  | none =>
      simp only [Option.isSome_none, Bool.false_eq_true, false_iff]
      rintro ⟨r, hr, hkey⟩
      exact SourceRecordRepository.byKey_none h r hr hkey
  | some r => exact ⟨fun _ => ⟨r, recordOf_some h⟩, fun _ => rfl⟩

theorem knows_congr (h : ∀ sourceId key, st'.HasKey sourceId key ↔ st.HasKey sourceId key)
    (call : IngestCall) : st'.knows env call = st.knows env call := by
  rw [Bool.eq_iff_iff, knows_iff, knows_iff, h]

theorem key_of_recordId {r : SourceRecord} (hr : r ∈ st.records)
    (hid : r.id = st.recordId env call) :
    r.sourceId = call.source.id ∧ r.recordKey = call.recordKey env := by
  cases h : st.recordOf env call with
  | none =>
      have hlt : r.id < st.records.next := Table.key_lt_next hr
      rw [hid, recordId_fresh h] at hlt
      omega
  | some found =>
      obtain ⟨hfound, hkey⟩ := recordOf_some h
      have hsame : r = found := Table.eq_of_key hr hfound (hid.trans (recordId_eq h))
      rw [hsame]
      exact hkey

theorem hasKey_written {written : SourceRecord}
    (hrecords : ∀ r, r ∈ st'.records ↔
      r = written ∨ (r ∈ st.records ∧ r.id ≠ st.recordId env call))
    (hsource : written.sourceId = call.source.id) (hkey : written.recordKey = call.recordKey env)
    (sourceId : Nat) (key : Text) :
    st'.HasKey sourceId key ↔
      st.HasKey sourceId key ∨ (sourceId = call.source.id ∧ key = call.recordKey env) := by
  constructor
  · rintro ⟨r, hr, hs, hk⟩
    rcases (hrecords r).mp hr with rfl | ⟨hold, -⟩
    · exact .inr ⟨by rw [← hs, hsource], by rw [← hk, hkey]⟩
    · exact .inl ⟨r, hold, hs, hk⟩
  · have hown : st'.HasKey call.source.id (call.recordKey env) :=
      ⟨written, (hrecords _).mpr (.inl rfl), hsource, hkey⟩
    rintro (⟨r, hr, rfl, rfl⟩ | ⟨rfl, rfl⟩)
    · by_cases hid : r.id = st.recordId env call
      · obtain ⟨hs, hk⟩ := key_of_recordId hr hid
        rwa [hs, hk]
      · exact ⟨r, (hrecords r).mpr (.inr ⟨hr, hid⟩), rfl, rfl⟩
    · exact hown

theorem hasKey_settles (hs : Settles env st call validation row st') (sourceId : Nat)
    (key : Text) :
    st'.HasKey sourceId key ↔
      st.HasKey sourceId key ∨ (sourceId = call.source.id ∧ key = call.recordKey env) :=
  hasKey_written hs.records (upserted_sourceId env st call validation)
    (upserted_recordKey env st call validation) sourceId key

theorem hasKey_upsertWrite (st : Store) (call : IngestCall) (validation : LeadValidation)
    (sourceId : Nat) (key : Text) :
    ((st.upsertWrite env call validation).apply st).HasKey sourceId key ↔
      st.HasKey sourceId key ∨ (sourceId = call.source.id ∧ key = call.recordKey env) :=
  hasKey_written (fun _ => mem_upsertWrite_records) (upserted_sourceId env st call validation)
    (upserted_recordKey env st call validation) sourceId key

/-- A call whose key is known already leaves the keys as they are, whether it completes or
raises. -/
theorem hasKey_known (hknown : st.knows env call = true) {sourceId : Nat} {key : Text} :
    st.HasKey sourceId key ∨ (sourceId = call.source.id ∧ key = call.recordKey env) ↔
      st.HasKey sourceId key := by
  constructor
  · rintro (h | ⟨rfl, rfl⟩)
    · exact h
    · exact knows_iff.mp hknown
  · exact .inl

end Store

end LeadPipe
