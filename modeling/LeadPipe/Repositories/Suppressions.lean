import LeadPipe.Db.Models
import LeadPipe.Normalization.Fields
import LeadPipe.Repositories.Leads

/-!
# Suppressions

`app/repositories/suppressions.py` and the `DELETE /api/leads/{id}` route, which is one
committed transaction.
-/

namespace LeadPipe

open Framework

variable (env : Platform)

structure SuppressionList where
  emails : List Text
  domains : List Text
  deriving DecidableEq

namespace SuppressionList

/-- `value and value in entries` -/
def hit (value : Option Text) (entries : List Text) : Bool :=
  value.any fun v => !v.isEmpty && entries.contains v

def blocks (s : SuppressionList) (lead : LeadPayload) : Option Text :=
  if hit lead.email s.emails then some "email".toList
  else if hit lead.websiteDomain s.domains then some "domain".toList
  else none

end SuppressionList

def normalizeValue (kind : SuppressionKind) (value : Text) : Text :=
  let fallback := env.unicode.lower (strip env value)
  match kind with
  | .email => Text.orElse (normalizeEmail env (some value)) fallback
  | .domain => Text.orElse (extractDomain env (normalizeUrl env (some value))) fallback

namespace SuppressionRepository

def values (st : Store) (kind : SuppressionKind) : List Text :=
  (st.suppressions.select fun s => s.kind = kind).map Suppression.value

/-- `load` -/
def list (st : Store) : SuppressionList := ⟨values st .email, values st .domain⟩

def load : Db SuppressionList := Txn.query list

def add (st : Store) (kind : SuppressionKind) (value : Text) (reason : Option Text) : Store :=
  let normalized := normalizeValue env kind value
  if (values st kind).contains normalized then st
  else
    { st with
      suppressions := st.suppressions.put ⟨st.suppressions.next, kind, normalized, reason⟩ }

/-- `if value: add(kind, value, reason)` -/
def addIf (st : Store) (kind : SuppressionKind) (value : Option Text) (reason : Text) : Store :=
  match value with
  | some v => if v.isEmpty then st else add env st kind v (some reason)
  | none => st

def addForLead (st : Store) (email domain : Option Text) (reason : Text) : Store :=
  addIf env (addIf env st .email email reason) .domain domain reason

def remove (st : Store) (suppressionId : Nat) : Store :=
  { st with suppressions := st.suppressions.erase fun s => s.id == suppressionId }

theorem mem_values {st : Store} {kind : SuppressionKind} {value : Text} :
    value ∈ values st kind ↔ ∃ s ∈ st.suppressions, s.kind = kind ∧ s.value = value := by
  simp [values, and_assoc]

theorem mem_values_add {st : Store} {kind kind' : SuppressionKind} {value v : Text}
    {reason : Option Text} :
    v ∈ values (add env st kind value reason) kind' ↔
      v ∈ values st kind' ∨ (kind' = kind ∧ v = normalizeValue env kind value) := by
  unfold add
  dsimp only
  split
  · rename_i hthere
    constructor
    · exact .inl
    · rintro (h | ⟨rfl, rfl⟩)
      · exact h
      · simpa using hthere
  · simp only [mem_values, Table.mem_put, key_suppression]
    constructor
    · rintro ⟨s, rfl | ⟨hs, -⟩, hkind, hvalue⟩
      · exact .inr ⟨hkind.symm, hvalue.symm⟩
      · exact .inl ⟨s, hs, hkind, hvalue⟩
    · rintro (⟨s, hs, hkind, hvalue⟩ | ⟨rfl, rfl⟩)
      · have hlt : s.id < st.suppressions.next := Table.key_lt_next hs
        exact ⟨s, .inr ⟨hs, hlt.ne⟩, hkind, hvalue⟩
      · exact ⟨_, .inl rfl, rfl, rfl⟩

theorem mem_values_addIf {st : Store} {kind kind' : SuppressionKind} {value : Option Text}
    {reason v : Text} :
    v ∈ values (addIf env st kind value reason) kind' ↔
      v ∈ values st kind' ∨ (kind' = kind ∧
        ∃ w, value = some w ∧ w ≠ [] ∧ v = normalizeValue env kind w) := by
  cases value with
  | none => simp [addIf]
  | some w =>
      cases w with
      | nil => simp [addIf]
      | cons c w => simp [addIf, mem_values_add]

theorem mem_values_addForLead {st : Store} {kind : SuppressionKind} {email domain : Option Text}
    {reason v : Text} :
    v ∈ values (addForLead env st email domain reason) kind ↔
      v ∈ values st kind ∨
        (kind = .email ∧ ∃ w, email = some w ∧ w ≠ [] ∧
          v = normalizeValue env .email w) ∨
        (kind = .domain ∧ ∃ w, domain = some w ∧ w ≠ [] ∧
          v = normalizeValue env .domain w) := by
  rw [addForLead, mem_values_addIf, mem_values_addIf, or_assoc]

theorem add_keeps (st : Store) (kind : SuppressionKind) (value : Text) (reason : Option Text) :
    ∃ suppressions, add env st kind value reason = { st with suppressions } := by
  unfold add
  dsimp only
  split
  · exact ⟨st.suppressions, rfl⟩
  · exact ⟨_, rfl⟩

theorem addIf_keeps (st : Store) (kind : SuppressionKind) (value : Option Text) (reason : Text) :
    ∃ suppressions, addIf env st kind value reason = { st with suppressions } := by
  cases value with
  | none => exact ⟨st.suppressions, rfl⟩
  | some v =>
      simp only [addIf]
      split
      · exact ⟨st.suppressions, rfl⟩
      · exact add_keeps env st kind v (some reason)

theorem addForLead_keeps (st : Store) (email domain : Option Text) (reason : Text) :
    ∃ suppressions, addForLead env st email domain reason = { st with suppressions } := by
  unfold addForLead
  obtain ⟨emails, h⟩ := addIf_keeps env st .email email reason
  rw [h]
  obtain ⟨domains, h'⟩ := addIf_keeps env { st with suppressions := emails } .domain domain reason
  rw [h']
  exact ⟨domains, rfl⟩

end SuppressionRepository

/-- The route; `none` is its 404. -/
def deleteLeadRoute (st : Store) (leadId : Nat) (suppress : Bool) : Option Store :=
  (st.leads.find? leadId).map fun lead =>
    let reason := "lead ".toList ++ Text.ofNat leadId ++ " deleted".toList
    let st := if suppress then
        SuppressionRepository.addForLead env st lead.email lead.websiteDomain reason
      else st
    st.deleteLead leadId

end LeadPipe
