import LeadPipe.Framework.Transition
import LeadPipe.Privacy.Contacts
import LeadPipe.Privacy.Erasure
import LeadPipe.System.Operations

/-!
# What is suppressed

The values a collection refuses are those that were added, by a request, by the command line or with
the deletion of a lead, and not removed since. An entry is removed by its number, or by its value
whatever its kind.
-/

namespace LeadPipe

open Framework

variable (env : Platform)

namespace Operation

/-- The operation puts the value on the list. -/
def Lists (kind : SuppressionKind) (value : Text) (st : Store) : Operation → Prop
  | suppress k v _ => kind = k ∧ value = normalizeValue env k v
  | deleteLead leadId true => ∃ lead ∈ st.leads, lead.id = leadId ∧
      ∃ v, lead.toLeadPayload.contact kind = some v ∧ v ≠ [] ∧ value = normalizeValue env kind v
  | _ => False

/-- The operation takes the value off the list. -/
def Unlists (kind : SuppressionKind) (value : Text) (st : Store) : Operation → Prop
  | unsuppress suppressionId =>
      ∃ s ∈ st.suppressions, s.id = suppressionId ∧ s.kind = kind ∧ s.value = value
  | removeValue k v => value = normalizeValue env k v
  | _ => False

end Operation

variable {env} {st : Store} {kind : SuppressionKind} {value : Text}

namespace SuppressionRepository

theorem values_congr {st' : Store} (h : st'.suppressions = st.suppressions) :
    values st' kind = values st kind := by
  unfold values
  rw [h]

theorem mem_values_remove (hst : st.Consistent) (suppressionId : Nat) :
    value ∈ values (remove st suppressionId) kind ↔ value ∈ values st kind ∧
      ¬∃ s ∈ st.suppressions, s.id = suppressionId ∧ s.kind = kind ∧ s.value = value := by
  simp only [mem_values, remove, Table.mem_erase, beq_eq_false_iff_ne]
  constructor
  · rintro ⟨s, ⟨hs, hid⟩, hkind, hvalue⟩
    refine ⟨⟨s, hs, hkind, hvalue⟩, ?_⟩
    rintro ⟨s', hs', hid', hkind', hvalue'⟩
    have hsame : s' = s :=
      hst.entries s' hs' s hs (Prod.ext (hkind'.trans hkind.symm) (hvalue'.trans hvalue.symm))
    exact hid (hsame ▸ hid')
  · rintro ⟨⟨s, hs, hkind, hvalue⟩, hother⟩
    exact ⟨s, ⟨hs, fun hid => hother ⟨s, hs, hid, hkind, hvalue⟩⟩, hkind, hvalue⟩

theorem mem_suppressions_foldl (entries : List Suppression) {s : Suppression} :
    s ∈ (entries.foldl (fun st e => remove st e.id) st).suppressions ↔
      s ∈ st.suppressions ∧ ∀ e ∈ entries, s.id ≠ e.id := by
  induction entries generalizing st with
  | nil => simp
  | cons e entries ih =>
      rw [List.foldl_cons, ih, List.forall_mem_cons, ← and_assoc]
      refine and_congr_left fun _ => ?_
      simp [remove]

variable (env) in
theorem mem_values_removeValue (k : SuppressionKind) (v : Text) :
    value ∈ values (removeValue env st k v) kind ↔
      value ∈ values st kind ∧ value ≠ normalizeValue env k v := by
  unfold removeValue
  simp only [mem_values, mem_suppressions_foldl, Table.mem_select, beq_iff_eq, and_imp]
  constructor
  · rintro ⟨s, ⟨hs, hkept⟩, hkind, rfl⟩
    exact ⟨⟨s, hs, hkind, rfl⟩, fun hvalue => hkept s hs hvalue rfl⟩
  · rintro ⟨⟨s, hs, hkind, rfl⟩, hvalue⟩
    refine ⟨s, ⟨hs, fun e he hsame hid => hvalue ?_⟩, hkind, rfl⟩
    rw [Table.eq_of_key hs he hid]
    exact hsame

end SuppressionRepository

open SuppressionRepository

theorem values_deleteLeadRoute (leadId : Nat) (suppressed : Bool) :
    value ∈ values ((deleteLeadRoute env st leadId suppressed).getD st) kind ↔
      (Operation.deleteLead leadId suppressed).Lists env kind value st ∨
        value ∈ values st kind := by
  unfold deleteLeadRoute
  cases hlead : st.leads.find? leadId with
  | none =>
      refine (or_iff_right fun hlists => ?_).symm
      cases suppressed with
      | false => exact hlists
      | true =>
          obtain ⟨lead, hmem, hid, -⟩ := hlists
          rw [Table.find?_eq_some.mpr ⟨hmem, hid⟩] at hlead
          cases hlead
  | some lead =>
      obtain ⟨hmem, hid⟩ := Table.find?_eq_some.mp hlead
      cases suppressed with
      | false => exact (or_iff_right fun hlists => hlists).symm
      | true =>
          have hvalues : values ((addForLead env st lead.email lead.websiteDomain
              ("lead ".toList ++ Text.ofNat leadId ++ " deleted".toList)).deleteLead leadId) kind =
              values (addForLead env st lead.email lead.websiteDomain
                ("lead ".toList ++ Text.ofNat leadId ++ " deleted".toList)) kind :=
            values_congr rfl
          simp only [Option.map_some, Option.getD_some, if_true]
          rw [hvalues, mem_values_addForLead, or_comm]
          refine or_congr_left ?_
          constructor
          · rintro (⟨rfl, v, hv, hne, rfl⟩ | ⟨rfl, v, hv, hne, rfl⟩)
            · exact ⟨lead, hmem, hid, v, hv, hne, rfl⟩
            · exact ⟨lead, hmem, hid, v, hv, hne, rfl⟩
          · rintro ⟨lead', hmem', hid', v, hv, hne, rfl⟩
            obtain rfl := Table.eq_of_key hmem' hmem (hid'.trans hid.symm)
            cases kind with
            | email => exact .inl ⟨rfl, v, hv, hne, rfl⟩
            | domain => exact .inr ⟨rfl, v, hv, hne, rfl⟩

theorem Operation.values_step (hst : st.Consistent) (op : Operation) :
    value ∈ values (op.step env st) kind ↔
      op.Lists env kind value st ∨ (value ∈ values st kind ∧ ¬op.Unlists env kind value st) := by
  have hsame (hkept : (op.step env st).suppressions = st.suppressions)
      (hlists : ¬op.Lists env kind value st) (hunlists : ¬op.Unlists env kind value st) :
      value ∈ values (op.step env st) kind ↔ op.Lists env kind value st ∨
        (value ∈ values st kind ∧ ¬op.Unlists env kind value st) := by
    rw [values_congr hkept, or_iff_right hlists, and_iff_left hunlists]
  cases op with
  | transaction t fault =>
      refine hsame ?_ id id
      have hview : (t.program env (Transaction.session st fault)).2.view.suppressions =
          st.suppressions := by
        obtain ⟨ws, -, hview, -⟩ := t.writes env hst fault
        rw [hview]
        exact Txn.replay_reads (f := Store.suppressions) (fun w _ => w.apply_suppressions) st
      simp only [step]
      rcases t.perform_cases env st fault with hdone | hback
      · rw [hdone, hview]
      · rw [hback]
        rfl
  | claim worker now locked =>
      refine hsame ?_ id id
      simp only [step, Queue.claim]
      split <;> rfl
  | heartbeat jobId now => exact hsame rfl id id
  | fail job error now jitter =>
      refine hsame ?_ id id
      simp only [step, Queue.fail]
      split <;> rfl
  | recoverStale staleAfter now failedAt => exact hsame rfl id id
  | purge cutoff =>
      refine hsame ?_ id id
      exact Store.purge_keeps (P := fun st' => st'.suppressions = st.suppressions)
        (fun _ _ h => h) rfl cutoff
  | suppress k v reason =>
      rw [show step env st (.suppress k v reason) = add env st k v reason from rfl,
        mem_values_add, or_comm]
      simp [Lists, Unlists]
  | deleteLead leadId suppressed =>
      rw [show step env st (.deleteLead leadId suppressed) =
        (deleteLeadRoute env st leadId suppressed).getD st from rfl, values_deleteLeadRoute]
      simp [Unlists]
  | unsuppress suppressionId =>
      rw [show step env st (.unsuppress suppressionId) = remove st suppressionId from rfl,
        mem_values_remove hst]
      simp [Lists, Unlists]
  | removeValue k v =>
      rw [show step env st (.removeValue k v) =
        SuppressionRepository.removeValue env st k v from rfl, mem_values_removeValue]
      simp [Lists, Unlists]

/-- What the next collection refuses: every value that was listed and not taken off since, and every
record with such a value for its email or its domain. -/
theorem suppressed_since_listed (ops : List Operation) :
    (∀ kind value,
      value ∈ values (execute (Operation.step env) .empty ops) kind ↔
        Since (Operation.step env) (fun st op => op.Lists env kind value st)
          (fun st op => op.Unlists env kind value st) .empty ops) ∧
      ∀ lead : LeadPayload,
        ((list (execute (Operation.step env) .empty ops)).blocks lead).isSome = true ↔
          ∃ kind value, lead.contact kind = some value ∧ value ≠ [] ∧
            Since (Operation.step env) (fun st op => op.Lists env kind value st)
              (fun st op => op.Unlists env kind value st) .empty ops := by
  have hsince (kind : SuppressionKind) (value : Text) :
      value ∈ values (execute (Operation.step env) .empty ops) kind ↔
        Since (Operation.step env) (fun st op => op.Lists env kind value st)
          (fun st op => op.Unlists env kind value st) .empty ops := by
    refine holds_iff_since (P := fun st => value ∈ values st kind) Store.consistent_empty ?_
      (fun _ op hst => hst.step op) (fun _ op hst => op.values_step hst) ops
    simp [mem_values, Store.empty]
  refine ⟨hsince, fun lead => ?_⟩
  rw [SuppressionList.blocks_isSome, SuppressionList.hit_eq_true, SuppressionList.hit_eq_true]
  constructor
  · rintro (⟨v, hv, hne, hmem⟩ | ⟨v, hv, hne, hmem⟩)
    · exact ⟨.email, v, hv, hne, (hsince .email v).mp hmem⟩
    · exact ⟨.domain, v, hv, hne, (hsince .domain v).mp hmem⟩
  · rintro ⟨kind, v, hv, hne, hmem⟩
    cases kind with
    | email => exact .inl ⟨v, hv, hne, (hsince .email v).mpr hmem⟩
    | domain => exact .inr ⟨v, hv, hne, (hsince .domain v).mpr hmem⟩

end LeadPipe
