import Mathlib.Logic.Function.Iterate
import LeadPipe.Framework.Program

/-!
# Properties of programs that are closed under composition

`Rules P N C` says that `C` holds of every program put together from statements, writes in `P`
and counts in `N`; what is shown of a program through it holds for every such `C`.

One such property is to do no more with the counters than adding to them. Two sessions that
differ in their counters by an amount still differ by that amount, and in nothing else, after
such a program has run in both.
-/

namespace LeadPipe.Framework

variable {σ ω μ ε α β ι : Type}

namespace Txn

/-- `C` holds of the parts of a program and, with them, of the program. -/
structure Rules [Replays ω σ] (P : ω → Prop) (N : (μ → μ) → Prop)
    (C : (α : Type) → Txn σ ω μ ε α → Prop) : Prop where
  pure {α : Type} (a : α) : C α (Pure.pure a)
  raise {α : Type} (e : ε) : C α (Txn.raise e)
  note {f : μ → μ} (hf : N f) : C Unit (Txn.note f)
  peek {α : Type} (f : σ → α) : C α (Txn.peek f)
  statement : C Unit Txn.statement
  emit {w : ω} (hw : P w) : C Unit (Txn.emit w)
  bind {α β : Type} {m : Txn σ ω μ ε α} {f : α → Txn σ ω μ ε β} (hm : C α m)
    (hf : ∀ a, C β (f a)) : C β (m >>= f)

namespace Rules

variable [Replays ω σ] {P : ω → Prop} {N : (μ → μ) → Prop}
  {C : (α : Type) → Txn σ ω μ ε α → Prop}

theorem lift (h : Rules P N C) (x : Except ε α) : C α (Txn.lift x) := by
  cases x with
  | ok a => exact h.pure a
  | error e => exact h.raise e

theorem query (h : Rules P N C) (g : σ → α) : C α (Txn.query g) :=
  h.bind h.statement fun _ => h.peek g

theorem execute (h : Rules P N C) {w : ω} (hw : P w) : C Unit (Txn.execute w) :=
  h.bind h.statement fun _ => h.emit hw

end Rules

theorem Composed.rules [Replays ω σ] (P : ω → Prop) (N : (μ → μ) → Prop) :
    Rules P N fun _ (m : Txn σ ω μ ε _) => Composed P m where
  pure := .pure
  raise := .raise
  note _ := .note _
  peek := .peek
  statement := .statement
  emit hw := .emit _ hw
  bind := .bind

end Txn

variable [Add μ]

/-- The session with counters that are ahead by `t`. -/
def Session.ahead (t : μ) (s : Session σ ω μ) : Session σ ω μ := s.note (t + ·)

namespace Txn

section Turns

omit [Add μ]

variable {body : ι → Txn σ ω μ ε Unit} {failed : μ → μ} {i : ι} {fault : Option Nat}
  {items : List (ι × Option Nat)} {s s' : Session σ ω μ}

theorem attemptEach_ok_cons {a : Unit} (h : Txn.armed fault (body i) s = (.ok a, s')) :
    Txn.attemptEach body failed ((i, fault) :: items) s = Txn.attemptEach body failed items s' := by
  simp only [Txn.attemptEach, h]

theorem attemptEach_error_cons {e : Exn ε} (h : Txn.armed fault (body i) s = (.error e, s')) :
    Txn.attemptEach body failed ((i, fault) :: items) s =
      Txn.attemptEach body failed items (s'.note failed) := by
  simp only [Txn.attemptEach, h]

end Turns

/-- Counters that are ahead stay ahead by as much, and nothing else depends on them. -/
def Tallies (m : Txn σ ω μ ε α) : Prop :=
  ∀ t s, m (Session.ahead t s) = ((m s).1, (m s).2.ahead t)

namespace Tallies

variable {m : Txn σ ω μ ε α} {f : α → Txn σ ω μ ε β}

theorem pure (a : α) : Tallies (Pure.pure a : Txn σ ω μ ε α) := fun _ _ => rfl

theorem raise (e : ε) : Tallies (Txn.raise e : Txn σ ω μ ε α) := fun _ _ => rfl

theorem peek (g : σ → α) : Tallies (Txn.peek g : Txn σ ω μ ε α) := fun _ _ => rfl

theorem emit [Replays ω σ] (w : ω) : Tallies (Txn.emit w : Txn σ ω μ ε Unit) := fun _ _ => rfl

theorem note {g : μ → μ} (hg : ∀ t n, g (t + n) = t + g n) :
    Tallies (Txn.note g : Txn σ ω μ ε Unit) := by
  intro t s
  simp only [Txn.note_run, Session.ahead, Session.note, hg]

theorem statement : Tallies (Txn.statement : Txn σ ω μ ε Unit) := by
  intro t s
  obtain ⟨view, log, invalid, fault, notes⟩ := s
  cases invalid with
  | true => rfl
  | false => rcases fault with - | - | n <;> rfl

theorem bind (hm : Tallies m) (hf : ∀ a, Tallies (f a)) : Tallies (m >>= f) := by
  intro t s
  have hahead := hm t s
  rcases hr : m s with ⟨e | a, s'⟩ <;> rw [hr] at hahead
  · rw [bind_error hr, bind_error hahead]
  · rw [bind_ok hr, bind_ok hahead]
    exact hf a t s'

theorem rules [Replays ω σ] (P : ω → Prop) :
    Rules P (fun g : μ → μ => ∀ t n, g (t + n) = t + g n)
      fun _ (m : Txn σ ω μ ε _) => Tallies m where
  pure := pure
  raise := raise
  note := note
  peek := peek
  statement := statement
  emit _ := emit _
  bind := bind

theorem armed (hm : Tallies m) (fault : Option Nat) : Tallies (Txn.armed fault m) := by
  intro t s
  have hahead := hm t { s with fault := fault }
  unfold Txn.armed
  dsimp only
  change ((m (Session.ahead t { s with fault := fault })).1, _) = _
  rw [hahead]
  exact Prod.ext rfl (congrArg (fun s' : Session σ ω μ => { s' with fault := none })
    (congrArg Prod.snd hahead))

theorem attemptEach {body : ι → Txn σ ω μ ε Unit} {failed : μ → μ}
    (hbody : ∀ i, Tallies (body i)) (hfailed : ∀ t n, failed (t + n) = t + failed n)
    (items : List (ι × Option Nat)) : Tallies (Txn.attemptEach body failed items) := by
  induction items with
  | nil => exact pure ()
  | cons item items ih =>
      obtain ⟨i, fault⟩ := item
      intro t s
      have hahead := (hbody i).armed fault t s
      rcases hr : Txn.armed fault (body i) s with ⟨e | a, s'⟩ <;> rw [hr] at hahead
      · rw [attemptEach_error_cons hr, attemptEach_error_cons hahead]
        have hnoted : (s'.ahead t).note failed = (s'.note failed).ahead t := by
          simp only [Session.ahead, Session.note, hfailed]
        exact (congrArg (Txn.attemptEach body failed items) hnoted).trans (ih t (s'.note failed))
      · rw [attemptEach_ok_cons hr, attemptEach_ok_cons hahead]
        exact ih t s'

end Tallies

/-- Items whose whole effect is to add `t` to the counters can be left out of a loop: what the
others do is the same, and the counters are behind by `t` for each of them. -/
theorem attemptEach_filter {body : ι → Txn σ ω μ ε Unit} {failed : μ → μ} {idle : ι → Bool}
    {t : μ} (hbody : ∀ i, Tallies (body i)) (hfailed : ∀ t n, failed (t + n) = t + failed n)
    (hidle : ∀ i fault s, idle i = true → s.fault = none →
      Txn.armed fault (body i) s = (.ok (), s.ahead t))
    (items : List (ι × Option Nat)) {s : Session σ ω μ} (hs : s.fault = none) :
    (Txn.attemptEach body failed items s).2 =
      (Session.ahead t)^[items.countP fun i => idle i.1]
        (Txn.attemptEach body failed (items.filter fun i => !idle i.1) s).2 := by
  induction items generalizing s with
  | nil => rfl
  | cons item items ih =>
      obtain ⟨i, fault⟩ := item
      cases hi : idle i with
      | true =>
          have hrest : Tallies (Txn.attemptEach body failed (items.filter fun i => !idle i.1)) :=
            .attemptEach hbody hfailed _
          have hfilter : ((i, fault) :: items).filter (fun i => !idle i.1) =
              items.filter fun i => !idle i.1 := List.filter_cons_of_neg (by simp [hi])
          have hcount : ((i, fault) :: items).countP (fun i => idle i.1) =
              (items.countP fun i => idle i.1) + 1 := List.countP_cons_of_pos hi
          have hahead : (s.ahead t).fault = none := hs
          rw [hfilter, hcount, attemptEach_ok_cons (hidle i fault s hi hs), ih hahead, hrest t s,
            Function.iterate_succ_apply]
      | false =>
          have hfirst : (Txn.armed fault (body i) s).2.fault = none := rfl
          have hfilter : ((i, fault) :: items).filter (fun i => !idle i.1) =
              (i, fault) :: items.filter fun i => !idle i.1 :=
            List.filter_cons_of_pos (by simp [hi])
          have hcount : ((i, fault) :: items).countP (fun i => idle i.1) =
              items.countP fun i => idle i.1 := List.countP_cons_of_neg (by simp [hi])
          rw [hfilter, hcount]
          rcases hr : Txn.armed fault (body i) s with ⟨e | a, s'⟩ <;> rw [hr] at hfirst
          · rw [attemptEach_error_cons hr, attemptEach_error_cons hr]
            exact ih (s := s'.note failed) hfirst
          · rw [attemptEach_ok_cons hr, attemptEach_ok_cons hr]
            exact ih hfirst

end Txn

end LeadPipe.Framework
