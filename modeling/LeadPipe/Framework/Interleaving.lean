import LeadPipe.Framework.Dialogue

/-!
# Programs side by side

Programs that ask the same surroundings and take turns. In whatever order they do, and whatever
they are answered, what each of them ensures alone holds of it among the others.
-/

namespace LeadPipe.Framework

/-- A program under way: what has happened to it, and what is left of it. -/
structure Task {C : Type} (A : C → Type) (ε α : Type) where
  done : List (Event A)
  rest : Dialogue A ε α

namespace Task

variable {C : Type} {A : C → Type} {ε α : Type} {ok : List (Event A) → Event A → Prop}
  {post : List (Event A) → Except ε α → Prop}

/-- What has happened was in order, and so will be what happens to the rest. -/
structure Obeys (ok : List (Event A) → Event A → Prop)
    (post : List (Event A) → Except ε α → Prop) (t : Task A ε α) : Prop where
  past : ∀ before event after, t.done = before ++ event :: after → ok before event
  future : Dialogue.Ensures ok post t.rest t.done

theorem Obeys.start {m : Dialogue A ε α} (hm : Dialogue.Ensures ok post m []) :
    Obeys ok post ⟨[], m⟩ :=
  ⟨by simp, hm⟩

theorem Obeys.answered {done : List (Event A)} {c : C} {next : A c → Dialogue A ε α}
    (h : Obeys ok post ⟨done, .call c next⟩) (a : A c) :
    Obeys ok post ⟨done ++ [⟨c, a⟩], next a⟩ := by
  obtain ⟨hok, hnext⟩ := h.future a
  refine ⟨fun before event after hdone => ?_, hnext⟩
  rcases List.eq_nil_or_concat after with rfl | ⟨after, last, rfl⟩
  · obtain ⟨rfl, hevent⟩ := List.append_inj' hdone rfl
    obtain rfl := (List.cons.inj hevent).1
    exact hok
  · rw [List.concat_eq_append, ← List.cons_append, ← List.append_assoc] at hdone
    exact h.past before event after (List.append_inj' hdone rfl).1

end Task

section Many

variable {C : Type} {A : C → Type} {ε α : Type} {ts ts' : List (Task A ε α)} {t : Task A ε α}

/-- Every task is still there, and has lost nothing of what happened to it. -/
def Onward (ts ts' : List (Task A ε α)) : Prop := ∀ t ∈ ts, ∃ t' ∈ ts', t.done <+: t'.done

theorem Onward.append (ts more : List (Task A ε α)) : Onward ts (ts ++ more) :=
  fun t ht => ⟨t, List.mem_append_left _ ht, List.prefix_refl _⟩

theorem Onward.set {i : Nat} (hi : ts[i]? = some t) {later : Task A ε α}
    (hlater : t.done <+: later.done) : Onward ts (ts.set i later) := by
  intro u hu
  obtain ⟨j, hj⟩ := List.mem_iff_getElem?.mp hu
  by_cases hij : i = j
  · subst hij
    obtain rfl := Option.some.inj (hi.symm.trans hj)
    have hlt : i < ts.length := (List.getElem?_eq_some_iff.mp hi).1
    exact ⟨later, List.mem_set hlt later, hlater⟩
  · refine ⟨u, List.mem_iff_getElem?.mpr ⟨j, ?_⟩, List.prefix_refl _⟩
    rw [List.getElem?_set_ne hij, hj]

theorem Onward.happened (h : Onward ts ts') {e : Event A} (he : ∃ t ∈ ts, e ∈ t.done) :
    ∃ t ∈ ts', e ∈ t.done := by
  obtain ⟨t, ht, hmem⟩ := he
  obtain ⟨t', ht', hdone⟩ := h t ht
  exact ⟨t', ht', hdone.subset hmem⟩

end Many

end LeadPipe.Framework
