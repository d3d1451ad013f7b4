import Mathlib.Algebra.GroupWithZero.Nat
import Mathlib.Data.List.Infix

/-!
# Systems that take labelled steps

A system is a function from a state and a label to the next state; a label that is not enabled
leaves the state alone. A run is a list of labels, and what is said about runs is said about
every step of a run, or about every state it passes through. A potential bounds how many steps of
a run take from it, and what single steps switch on and off is decided by the last of them.
-/

namespace LeadPipe.Framework

variable {σ ℓ : Type} (step : σ → ℓ → σ)

def execute (s : σ) (labels : List ℓ) : σ := labels.foldl step s

/-- Every step of the run satisfies `C`, which sees the state before the step and its label. -/
def Always (C : σ → ℓ → Prop) : σ → List ℓ → Prop
  | _, [] => True
  | s, l :: labels => C s l ∧ Always C (step s l) labels

instance Always.decidable (C : σ → ℓ → Prop) [∀ s l, Decidable (C s l)] (s : σ)
    (labels : List ℓ) : Decidable (Always step C s labels) :=
  match labels with
  | [] => .isTrue trivial
  | l :: labels =>
      have := decidable C (step s l) labels
      inferInstanceAs (Decidable (C s l ∧ Always step C (step s l) labels))

/-- How many steps of the run are counted. -/
def tally (counted : σ → ℓ → Bool) : σ → List ℓ → Nat
  | _, [] => 0
  | s, l :: labels => (counted s l).toNat + tally counted (step s l) labels

/-- Something was switched on in the run, and nothing has switched it off afterwards. -/
def Since (on off : σ → ℓ → Prop) (s : σ) (labels : List ℓ) : Prop :=
  ∃ pre l post, labels = pre ++ l :: post ∧ on (execute step s pre) l ∧
    Always step (fun s l => ¬off s l) (execute step s (pre ++ [l])) post

variable {step} {C D on off : σ → ℓ → Prop} {I P : σ → Prop} {s : σ} {counted : σ → ℓ → Bool}

@[simp] theorem execute_nil (s : σ) : execute step s [] = s := rfl

@[simp] theorem execute_cons (s : σ) (l : ℓ) (labels : List ℓ) :
    execute step s (l :: labels) = execute step (step s l) labels := rfl

theorem execute_append (s : σ) (pre post : List ℓ) :
    execute step s (pre ++ post) = execute step (execute step s pre) post :=
  List.foldl_append

theorem always_append {pre post : List ℓ} :
    Always step C s (pre ++ post) ↔
      Always step C s pre ∧ Always step C (execute step s pre) post := by
  induction pre generalizing s with
  | nil => simp [Always]
  | cons l pre ih => simp only [List.cons_append, Always, ih, execute_cons, and_assoc]

theorem Always.step_at (pre : List ℓ) (l : ℓ) (post : List ℓ)
    (h : Always step C s (pre ++ l :: post)) : C (execute step s pre) l :=
  (always_append.mp h).2.1

theorem Always.of_prefix {done labels : List ℓ} (h : Always step C s labels)
    (hdone : done <+: labels) : Always step C s done := by
  obtain ⟨rest, rfl⟩ := hdone
  exact (always_append.mp h).1

/-- The invariant rule: what one conforming step keeps, a conforming run keeps. -/
theorem Always.invariant (hs : I s) (hstep : ∀ s l, I s → C s l → I (step s l))
    {labels : List ℓ} (h : Always step C s labels) : I (execute step s labels) := by
  induction labels generalizing s with
  | nil => exact hs
  | cons l labels ih => exact ih (hstep s l hs h.1) h.2

theorem Always.imp (hs : I s) (hstep : ∀ s l, I s → C s l → I (step s l))
    (himp : ∀ s l, I s → C s l → D s l) {labels : List ℓ} (h : Always step C s labels) :
    Always step D s labels := by
  induction labels generalizing s with
  | nil => trivial
  | cons l labels ih => exact ⟨himp s l hs h.1, ih (hstep s l hs h.1) h.2⟩

theorem execute_invariant (hs : I s) (hstep : ∀ s l, I s → I (step s l)) (labels : List ℓ) :
    I (execute step s labels) := by
  induction labels generalizing s with
  | nil => exact hs
  | cons l labels ih => exact ih (hstep s l hs)

theorem always_of_split {labels : List ℓ}
    (h : ∀ pre l post, labels = pre ++ l :: post → C (execute step s pre) l) :
    Always step C s labels := by
  induction labels generalizing s with
  | nil => trivial
  | cons l labels ih =>
      refine ⟨h [] l labels rfl, ih ?_⟩
      intro pre l' post hsplit
      exact h (l :: pre) l' post (by rw [hsplit]; rfl)

theorem Always.and {labels : List ℓ} (h : Always step C s labels)
    (h' : Always step D s labels) : Always step (fun s l => C s l ∧ D s l) s labels := by
  induction labels generalizing s with
  | nil => trivial
  | cons l labels ih => exact ⟨⟨h.1, h'.1⟩, ih h.2 h'.2⟩

theorem Always.tally_le (potential : σ → Nat) (hs : I s)
    (hstep : ∀ s l, I s → C s l → I (step s l))
    (hspent : ∀ s l, I s → C s l → (counted s l).toNat + potential (step s l) ≤ potential s)
    {labels : List ℓ} (h : Always step C s labels) :
    tally step counted s labels + potential (execute step s labels) ≤ potential s := by
  induction labels generalizing s with
  | nil => simp [tally]
  | cons l labels ih =>
      have hfirst := hspent s l hs h.1
      have hrest := ih (hstep s l hs h.1) h.2
      rw [tally, execute_cons]
      omega

theorem sum_spent {ι : Type} {f f' : ι → Nat} {g : ι → Bool} {l : List ι}
    (h : ∀ i ∈ l, (g i).toNat + f' i ≤ f i) :
    (l.any g).toNat + (l.map f').sum ≤ (l.map f).sum := by
  induction l with
  | nil => simp
  | cons i l ih =>
      have hfirst := h i List.mem_cons_self
      have hrest := ih fun j hj => h j (List.mem_cons_of_mem i hj)
      have hor : (g i || l.any g).toNat ≤ (g i).toNat + (l.any g).toNat := by
        cases g i <;> cases l.any g <;> decide
      simp only [List.any_cons, List.map_cons, List.sum_cons]
      omega

theorem not_since_nil : ¬Since step on off s [] := by
  rintro ⟨pre, l, post, hsplit, -⟩
  simp at hsplit

theorem since_concat {labels : List ℓ} {l : ℓ} :
    Since step on off s (labels ++ [l]) ↔ on (execute step s labels) l ∨
      (Since step on off s labels ∧ ¬off (execute step s labels) l) := by
  constructor
  · rintro ⟨pre, l', post, hsplit, hon, hoff⟩
    rcases List.eq_nil_or_concat post with rfl | ⟨post, last, rfl⟩
    · obtain ⟨rfl, hlast⟩ := List.append_inj' hsplit rfl
      obtain rfl := List.singleton_inj.mp hlast
      exact .inl hon
    · rw [List.concat_eq_append] at hsplit hoff
      rw [← List.cons_append, ← List.append_assoc] at hsplit
      obtain ⟨rfl, hlast⟩ := List.append_inj' hsplit rfl
      obtain rfl := List.singleton_inj.mp hlast
      obtain ⟨hbefore, hlast⟩ := always_append.mp hoff
      refine .inr ⟨⟨pre, l', post, rfl, hon, hbefore⟩, ?_⟩
      rw [← execute_append, List.append_assoc] at hlast
      exact hlast.1
  · rintro (hon | ⟨⟨pre, l', post, rfl, hon, hbefore⟩, hoff⟩)
    · exact ⟨labels, l, [], rfl, hon, trivial⟩
    · refine ⟨pre, l', post ++ [l], by simp, hon, always_append.mpr ⟨hbefore, ?_, trivial⟩⟩
      rw [← execute_append, List.append_assoc]
      exact hoff

/-- What every step switches on, leaves or switches off. -/
theorem holds_iff_since (hs : I s) (hfirst : ¬P s) (hstep : ∀ s l, I s → I (step s l))
    (hswitch : ∀ s l, I s → (P (step s l) ↔ on s l ∨ (P s ∧ ¬off s l))) (labels : List ℓ) :
    P (execute step s labels) ↔ Since step on off s labels := by
  induction labels using List.reverseRecOn with
  | nil => exact iff_of_false hfirst not_since_nil
  | append_singleton labels l ih =>
      have hreached : I (execute step s labels) := execute_invariant hs hstep labels
      rw [execute_append, since_concat, ← ih]
      exact hswitch _ l hreached

end LeadPipe.Framework
