import LeadPipe.Framework.Program
import LeadPipe.Framework.Transition

/-!
# Pre- and postconditions of transactions

`Triple G P m Q` is about every session whose view satisfies `P`, whatever its statements meet with:
each write of `m` is one that `G` allows in the view it is made in, and if `m` returns, what it
returns and the view it leaves satisfy `Q`. An exception promises nothing but the writes before it;
what every allowed write keeps holds after it as well.
-/

namespace LeadPipe.Framework

variable {σ ω μ ε α β : Type} [Replays ω σ]

/-- Each write is allowed where it is made. -/
def AllAdmitted (G : σ → ω → Prop) : σ → List ω → Prop := Always (fun v w => Replays.apply w v) G

theorem AllAdmitted.append {G : σ → ω → Prop} {v : σ} {ws vs : List ω} (h : AllAdmitted G v ws)
    (h' : AllAdmitted G (Session.replay ws v) vs) : AllAdmitted G v (ws ++ vs) :=
  always_append.mpr ⟨h, h'⟩

theorem AllAdmitted.keeps {G : σ → ω → Prop} {I : σ → Prop}
    (hI : ∀ v w, I v → G v w → I (Replays.apply w v)) {v : σ} {ws : List ω} (h : AllAdmitted G v ws)
    (hv : I v) : I (Session.replay ws v) :=
  Always.invariant hv hI h

namespace Txn

def Triple (G : σ → ω → Prop) (P : σ → Prop) (m : Txn σ ω μ ε α) (Q : α → σ → Prop) : Prop :=
  ∀ s, P s.view → ∃ ws, (m s).2.log = s.log ++ ws ∧ (m s).2.view = Session.replay ws s.view ∧
    AllAdmitted G s.view ws ∧ ∀ a, (m s).1 = .ok a → Q a (m s).2.view

namespace Triple

variable {G : σ → ω → Prop} {P P' : σ → Prop} {Q Q' : α → σ → Prop} {R : β → σ → Prop}
  {m : Txn σ ω μ ε α}

theorem silent (h : ∀ s, P s.view → (m s).2.log = s.log ∧ (m s).2.view = s.view ∧
    ∀ a, (m s).1 = .ok a → Q a s.view) : Triple G P m Q := by
  intro s hs
  obtain ⟨hlog, hview, hok⟩ := h s hs
  refine ⟨[], by rw [hlog, List.append_nil], hview, trivial, ?_⟩
  rw [hview]
  exact hok

theorem pure {a : α} (h : ∀ v, P v → Q a v) :
    Triple G P (Pure.pure a : Txn σ ω μ ε α) Q :=
  silent fun s hs => ⟨rfl, rfl, fun b hb => by cases hb; exact h _ hs⟩

theorem raise (e : ε) : Triple G P (Txn.raise e : Txn σ ω μ ε α) Q :=
  silent fun _ _ => ⟨rfl, rfl, fun _ hb => by cases hb⟩

theorem lift (x : Except ε α) :
    Triple G P (Txn.lift x : Txn σ ω μ ε α) fun a v => P v ∧ x = .ok a := by
  cases x with
  | ok a => exact pure fun v hv => ⟨hv, rfl⟩
  | error e => exact raise e

theorem note (f : μ → μ) : Triple G P (Txn.note f : Txn σ ω μ ε Unit) fun _ => P :=
  silent fun _ hs => ⟨rfl, rfl, fun _ _ => hs⟩

theorem counters : Triple G P (Txn.counters : Txn σ ω μ ε μ) fun _ => P :=
  silent fun _ hs => ⟨rfl, rfl, fun _ _ => hs⟩

theorem peek (f : σ → α) :
    Triple G P (Txn.peek f : Txn σ ω μ ε α) fun a v => P v ∧ a = f v :=
  silent fun _ hs => ⟨rfl, rfl, fun _ hb => by cases hb; exact ⟨hs, rfl⟩⟩

theorem statement : Triple G P (Txn.statement : Txn σ ω μ ε Unit) fun _ => P := by
  refine silent fun s hs => ?_
  unfold Txn.statement
  split
  · exact ⟨rfl, rfl, fun _ _ => hs⟩
  · split
    · exact ⟨rfl, rfl, fun _ _ => hs⟩
    · exact ⟨rfl, rfl, fun _ _ => hs⟩
    · exact ⟨rfl, rfl, fun _ _ => hs⟩

theorem bind {f : α → Txn σ ω μ ε β} (hm : Triple G P m Q)
    (hf : ∀ a, Triple G (Q a) (f a) R) : Triple G P (m >>= f) R := by
  intro s hs
  obtain ⟨ws, hlog, hview, hall, hok⟩ := hm s hs
  rcases hr : m s with ⟨e | a, s₁⟩ <;> rw [hr] at hlog hview hok
  · rw [bind_error hr]
    exact ⟨ws, hlog, hview, hall, fun b hb => by cases hb⟩
  · rw [bind_ok hr]
    obtain ⟨vs, hlog', hview', hall', hok'⟩ := hf a s₁ (hok a rfl)
    refine ⟨ws ++ vs, ?_, ?_, ?_, hok'⟩
    · rw [hlog', hlog, List.append_assoc]
    · rw [hview', hview, Session.replay_append]
    · rw [hview] at hall'
      exact hall.append hall'

theorem conseq (hP : ∀ v, P' v → P v) (h : Triple G P m Q) (hQ : ∀ a v, Q a v → Q' a v) :
    Triple G P' m Q' := by
  intro s hs
  obtain ⟨ws, hlog, hview, hall, hok⟩ := h s (hP _ hs)
  exact ⟨ws, hlog, hview, hall, fun a ha => hQ _ _ (hok a ha)⟩

theorem allow {G' : σ → ω → Prop} (h : Triple G P m Q) (hG : ∀ v w, G v w → G' v w) :
    Triple G' P m Q := by
  intro s hs
  obtain ⟨ws, hlog, hview, hall, hok⟩ := h s hs
  refine ⟨ws, hlog, hview, ?_, hok⟩
  exact Always.imp (I := fun _ => True) trivial (fun _ _ _ _ => trivial) (fun v w _ => hG v w) hall

theorem composed {W : ω → Prop} (h : Composed W m)
    (hP : ∀ v w, P v → W w → P (Replays.apply w v)) : Triple (fun _ w => W w) P m fun _ => P := by
  intro s hs
  obtain ⟨ws, hlog, hview, hws⟩ := h.writes s
  have hall : AllAdmitted (fun _ w => W w) s.view ws := by
    refine always_of_split fun pre w post hsplit => hws w ?_
    rw [hsplit]
    exact List.mem_append_right _ List.mem_cons_self
  refine ⟨ws, hlog, hview, hall, fun a _ => ?_⟩
  rw [hview]
  exact hall.keeps hP hs

theorem forget (h : Triple G P m Q) : Triple G P m fun _ _ => True :=
  h.conseq (fun _ hv => hv) fun _ _ _ => trivial

theorem query (f : σ → α) :
    Triple G P (Txn.query f : Txn σ ω μ ε α) fun a v => P v ∧ a = f v :=
  bind statement fun _ => peek f

theorem execute {w : ω} {Q : σ → Prop} (h : ∀ v, P v → G v w ∧ Q (Replays.apply w v)) :
    Triple G P (Txn.execute w : Txn σ ω μ ε Unit) fun _ => Q := by
  refine bind statement fun _ s hs => ?_
  obtain ⟨hallowed, hafter⟩ := h s.view hs
  exact ⟨[w], rfl, rfl, ⟨hallowed, trivial⟩, fun _ _ => hafter⟩

theorem attemptEach {ι : Type} {body : ι → Txn σ ω μ ε Unit} (failed : μ → μ)
    (hI : ∀ v w, P v → G v w → P (Replays.apply w v))
    (h : ∀ i, Triple G P (body i) fun _ _ => True) (items : List (ι × Option Nat)) :
    Triple G P (Txn.attemptEach body failed items) fun _ => P := by
  induction items with
  | nil => exact pure fun v hv => hv
  | cons item items ih =>
      obtain ⟨i, fault⟩ := item
      intro s hs
      obtain ⟨ws, hlog, hview, hall, -⟩ := h i { s with fault := fault } hs
      have hkept : P (Session.replay ws s.view) := hall.keeps hI hs
      have hrest (s₁ : Session σ ω μ) (hlog₁ : s₁.log = s.log ++ ws)
          (hview₁ : s₁.view = Session.replay ws s.view) :
          ∃ ws, (Txn.attemptEach body failed items s₁).2.log = s.log ++ ws ∧
            (Txn.attemptEach body failed items s₁).2.view = Session.replay ws s.view ∧
            AllAdmitted G s.view ws ∧ ∀ a, (Txn.attemptEach body failed items s₁).1 = .ok a →
              P (Txn.attemptEach body failed items s₁).2.view := by
        obtain ⟨vs, hlog', hview', hall', hok'⟩ := ih s₁ (by rw [hview₁]; exact hkept)
        refine ⟨ws ++ vs, ?_, ?_, ?_, hok'⟩
        · rw [hlog', hlog₁, List.append_assoc]
        · rw [hview', hview₁, Session.replay_append]
        · rw [hview₁] at hall'
          exact hall.append hall'
      unfold Txn.attemptEach
      rcases hr : Txn.armed fault (body i) s with ⟨e | a, s₁⟩
      · have hs₁ : s₁ = { (body i { s with fault := fault }).2 with fault := none } :=
          (congrArg Prod.snd hr).symm
        exact hrest (s₁.note failed) (by rw [hs₁]; exact hlog) (by rw [hs₁]; exact hview)
      · have hs₁ : s₁ = { (body i { s with fault := fault }).2 with fault := none } :=
          (congrArg Prod.snd hr).symm
        exact hrest s₁ (by rw [hs₁]; exact hlog) (by rw [hs₁]; exact hview)

/-- What is committed. -/
theorem commits (h : Triple G P m Q) {s : Session σ ω μ} (hs : P s.view) {v : σ}
    (hcommit : Txn.commit m s = .ok v) : ∃ a, Q a v := by
  obtain ⟨ws, hlog, hview, hall, hok⟩ := h s hs
  unfold Txn.commit at hcommit
  rcases hr : m s with ⟨e | a, s₁⟩ <;> rw [hr] at hcommit hok
  · cases hcommit
  · by_cases hinvalid : s₁.invalid = true
    · simp [hinvalid] at hcommit
    · simp only [hinvalid, Bool.false_eq_true, if_false] at hcommit
      cases hcommit
      exact ⟨a, hok a rfl⟩

end Triple

end Txn

end LeadPipe.Framework
