import LeadPipe.Framework.Transaction

/-!
# Programs made of statements

`Composed P` are the programs put together from statements, reads, counters and exceptions, all
of whose writes satisfy `P`. What such a program does to the validity of its session is the
same whatever it computes; so it is proved here once, by induction on how the program is put
together.

The second half is about loops that run a body on each item and catch what it raises.
-/

namespace LeadPipe.Framework

namespace Txn

variable {σ ω μ ε : Type} [Replays ω σ]

inductive Composed (P : ω → Prop) : {α : Type} → Txn σ ω μ ε α → Prop
  | pure {α : Type} (a : α) : Composed P (Pure.pure a : Txn σ ω μ ε α)
  | raise {α : Type} (e : ε) : Composed P (Txn.raise e : Txn σ ω μ ε α)
  | note (f : μ → μ) : Composed P (Txn.note f)
  | peek {α : Type} (f : σ → α) : Composed P (Txn.peek f)
  | counters : Composed P Txn.counters
  | statement : Composed P Txn.statement
  | emit (w : ω) (h : P w) : Composed P (Txn.emit w)
  | bind {α β : Type} {m : Txn σ ω μ ε α} {f : α → Txn σ ω μ ε β} (hm : Composed P m)
      (hf : ∀ a, Composed P (f a)) : Composed P (m >>= f)

variable {α β : Type} {P Q : ω → Prop} {m : Txn σ ω μ ε α} {s s' : Session σ ω μ}

theorem replay_reads {κ : Type} {f : σ → κ} {ws : List ω}
    (hf : ∀ w ∈ ws, ∀ v : σ, f (Replays.apply w v) = f v) (v : σ) :
    f (Session.replay ws v) = f v := by
  induction ws generalizing v with
  | nil => rfl
  | cons w ws ih =>
      rw [Session.replay_cons, ih (fun w hw => hf w (List.mem_cons_of_mem _ hw)),
        hf w List.mem_cons_self]

namespace Composed

theorem query (g : σ → α) : Composed P (Txn.query g : Txn σ ω μ ε α) :=
  bind statement fun _ => peek g

theorem execute {w : ω} (h : P w) : Composed P (Txn.execute w : Txn σ ω μ ε Unit) :=
  bind statement fun _ => emit w h

theorem dead (h : Composed P m) (hs : s.invalid = true) : (m s).2.invalid = true := by
  induction h generalizing s with
  | pure | raise | note | peek | counters | emit => exact hs
  | statement => simp [Txn.statement, hs]
  | @bind α β m f _ _ ihm ihf =>
      have hm := ihm hs
      rcases hr : m s with ⟨e | a, s₁⟩ <;> rw [hr] at hm
      · rw [bind_error hr]
        exact hm
      · rw [bind_ok hr]
        exact ihf a hm

theorem alive (h : Composed P m) (hs : s.invalid = false) :
    (m s).2.invalid = true ↔ (m s).1 = .error .database := by
  induction h generalizing s with
  | pure | raise | note | peek | counters | emit =>
      simp [Txn.raise, Txn.note, Txn.peek, Txn.counters, Txn.emit, Session.note, Session.emit, hs]
  | statement =>
      unfold Txn.statement
      rcases hf : s.fault with - | - | n <;> simp [hs]
  | @bind α β m f _ _ ihm ihf =>
      have hm := ihm hs
      rcases hr : m s with ⟨e | a, s₁⟩ <;> rw [hr] at hm
      · rw [bind_error hr]
        simpa using hm
      · rw [bind_ok hr]
        have hvalid : s₁.invalid = false := by simpa using hm
        exact ihf a hvalid

theorem writes (h : Composed P m) (s : Session σ ω μ) :
    ∃ ws, (m s).2.log = s.log ++ ws ∧ (m s).2.view = Session.replay ws s.view ∧
      ∀ w ∈ ws, P w := by
  induction h generalizing s with
  | pure | raise | note | peek | counters => exact ⟨[], by simp [Txn.raise, Txn.note,
      Txn.peek, Txn.counters]⟩
  | statement =>
      refine ⟨[], ?_⟩
      unfold Txn.statement
      split
      · simp
      · split <;> simp
  | emit w hw => exact ⟨[w], by simp [Txn.emit, hw]⟩
  | @bind α β m f _ _ ihm ihf =>
      obtain ⟨ws, hlog, hview, hws⟩ := ihm s
      rcases hr : m s with ⟨e | a, s₁⟩ <;> rw [hr] at hlog hview
      · rw [bind_error hr]
        exact ⟨ws, hlog, hview, hws⟩
      · rw [bind_ok hr]
        obtain ⟨vs, hlog', hview', hvs⟩ := ihf a s₁
        refine ⟨ws ++ vs, ?_, ?_, ?_⟩
        · rw [hlog', hlog, List.append_assoc]
        · rw [hview', hview, Session.replay_append]
        · intro w hw
          rcases List.mem_append.mp hw with hw | hw
          · exact hws w hw
          · exact hvs w hw

/-- A refusal that did not come made no difference. -/
theorem steady (h : Composed P m) {n : Nat} {r : Except (Exn ε) α}
    (hr : m { s with fault := some n } = (r, s')) (hne : r ≠ .error .database) :
    (∃ k, s'.fault = some k) ∧ m { s with fault := none } = (r, { s' with fault := none }) := by
  induction h generalizing s s' n with
  | pure | raise | note | peek | counters | emit =>
      cases hr
      exact ⟨⟨n, rfl⟩, rfl⟩
  | statement =>
      unfold Txn.statement at hr ⊢
      by_cases hs : s.invalid = true
      · simp only [hs, if_true] at hr ⊢
        cases hr
        exact ⟨⟨n, rfl⟩, by simp⟩
      · simp only [hs, if_false, Bool.false_eq_true] at hr ⊢
        cases n with
        | zero =>
            cases hr
            exact absurd rfl hne
        | succ n =>
            cases hr
            exact ⟨⟨n, rfl⟩, rfl⟩
  | @bind α β m f _ _ ihm ihf =>
      rcases hm : m { s with fault := some n } with ⟨e | a, s₁⟩
      · rw [bind_error hm] at hr
        cases hr
        obtain ⟨hk, hnone⟩ := ihm hm (by simpa using hne)
        exact ⟨hk, bind_error hnone⟩
      · rw [bind_ok hm] at hr
        obtain ⟨⟨k, hk⟩, hnone⟩ := ihm hm (by simp)
        rw [bind_ok hnone]
        have hs₁ : { s₁ with fault := some k } = s₁ := by rw [← hk]
        exact ihf a (by rw [hs₁]; exact hr) hne

end Composed

variable {ι : Type}

/-- Runs `m` with the statement of this ordinal refused. -/
def armed (fault : Option Nat) (m : Txn σ ω μ ε α) : Txn σ ω μ ε α := fun s =>
  let r := m { s with fault := fault }
  (r.1, { r.2 with fault := none })

omit [Replays ω σ] in
theorem armed_healthy {m : Txn σ ω μ ε α} {s : Session σ ω μ} (h : s.Healthy)
    (hm : (m s).2.Healthy) : armed none m s = m s := by
  have hs : { s with fault := none } = s := by rw [← h.quiet]
  have hafter : { (m s).2 with fault := none } = (m s).2 := by rw [← hm.quiet]
  unfold armed
  rw [hs]
  exact Prod.ext rfl hafter

/-- Runs `body` on every item; an exception is noted and the loop goes on in the session it
finds, whatever state that is in. -/
def attemptEach (body : ι → Txn σ ω μ ε Unit) (failed : μ → μ) :
    List (ι × Option Nat) → Txn σ ω μ ε Unit
  | [] => pure ()
  | (i, fault) :: items => fun s =>
      match armed fault (body i) s with
      | (.ok _, s') => attemptEach body failed items s'
      | (.error _, s') => attemptEach body failed items (s'.note failed)

/-- The items none of whose statements is refused, when every item whose statement is refused
leaves no trace. -/
def spared (body : ι → Txn σ ω μ ε Unit) (failed : μ → μ) :
    List (ι × Option Nat) → Session σ ω μ → List ι
  | [], _ => []
  | (i, fault) :: items, s =>
      match armed fault (body i) s with
      | (.ok _, s') => i :: spared body failed items s'
      | (.error .database, _) => spared body failed items s
      | (.error _, s') => i :: spared body failed items (s'.note failed)

variable {body : ι → Txn σ ω μ ε Unit}

omit [Replays ω σ] in
theorem attemptEach_ok (body : ι → Txn σ ω μ ε Unit) (failed : μ → μ)
    (items : List (ι × Option Nat)) (s : Session σ ω μ) :
    (attemptEach body failed items s).1 = .ok () := by
  induction items generalizing s with
  | nil => rfl
  | cons item items ih =>
      unfold attemptEach
      split <;> exact ih _

omit [Replays ω σ] in
theorem attemptEach_quiet (body : ι → Txn σ ω μ ε Unit) (failed : μ → μ)
    (items : List (ι × Option Nat)) (hs : s.fault = none) :
    (attemptEach body failed items s).2.fault = none := by
  induction items generalizing s with
  | nil => exact hs
  | cons item items ih =>
      obtain ⟨i, fault⟩ := item
      have hfirst : (armed fault (body i) s).2.fault = none := rfl
      unfold attemptEach
      rcases hr : armed fault (body i) s with ⟨e | a, s₁⟩ <;> rw [hr] at hfirst
      · exact ih (s := s₁.note failed) hfirst
      · exact ih hfirst

omit [Replays ω σ] in
theorem spared_length_le (body : ι → Txn σ ω μ ε Unit) (failed : μ → μ)
    (items : List (ι × Option Nat)) (s : Session σ ω μ) :
    (spared body failed items s).length ≤ items.length := by
  induction items generalizing s with
  | nil => simp [spared]
  | cons item items ih =>
      unfold spared
      split
      · exact Nat.succ_le_succ (ih _)
      · exact Nat.le_succ_of_le (ih _)
      · exact Nat.succ_le_succ (ih _)

namespace Composed

theorem armed (h : Composed P m) (fault : Option Nat) (hs : s.invalid = false) :
    (Txn.armed fault m s).2.invalid = true ↔ (Txn.armed fault m s).1 = .error .database :=
  h.alive (s := { s with fault := fault }) hs

theorem armed_steady (h : Composed P m) (fault : Option Nat)
    (hne : (Txn.armed fault m s).1 ≠ .error .database) :
    Txn.armed fault m s = Txn.armed none m s := by
  cases fault with
  | none => rfl
  | some n =>
      have hsteady := (h.steady (s := s) (n := n) rfl hne).2
      simp only [Txn.armed, hsteady]

theorem attemptEach_writes (hb : ∀ i, Composed P (body i)) (failed : μ → μ)
    (items : List (ι × Option Nat))
    (s : Session σ ω μ) :
    ∃ ws, (Txn.attemptEach body failed items s).2.log = s.log ++ ws ∧
      (Txn.attemptEach body failed items s).2.view = Session.replay ws s.view ∧
      ∀ w ∈ ws, P w := by
  induction items generalizing s with
  | nil => exact ⟨[], by simp [Txn.attemptEach]⟩
  | cons item items ih =>
      obtain ⟨i, fault⟩ := item
      have hfirst : ∃ ws, (Txn.armed fault (body i) s).2.log = s.log ++ ws ∧
          (Txn.armed fault (body i) s).2.view = Session.replay ws s.view ∧ ∀ w ∈ ws, P w :=
        (hb i).writes { s with fault := fault }
      obtain ⟨ws, hlog, hview, hws⟩ := hfirst
      have hrest : ∀ s₁ : Session σ ω μ, s₁.log = s.log ++ ws →
          s₁.view = Session.replay ws s.view →
          ∃ vs, (Txn.attemptEach body failed items s₁).2.log = s.log ++ vs ∧
            (Txn.attemptEach body failed items s₁).2.view = Session.replay vs s.view ∧
            ∀ w ∈ vs, P w := by
        intro s₁ hlog₁ hview₁
        obtain ⟨vs, hlog', hview', hvs⟩ := ih s₁
        refine ⟨ws ++ vs, ?_, ?_, ?_⟩
        · rw [hlog', hlog₁, List.append_assoc]
        · rw [hview', hview₁, Session.replay_append]
        · intro w hw
          rcases List.mem_append.mp hw with hw | hw
          · exact hws w hw
          · exact hvs w hw
      unfold Txn.attemptEach
      rcases hr : Txn.armed fault (body i) s with ⟨e | a, s₁⟩ <;> rw [hr] at hlog hview
      · exact hrest (s₁.note failed) hlog hview
      · exact hrest s₁ hlog hview

theorem attemptEach_reads {κ : Type} {f : σ → κ} (hb : ∀ i, Composed P (body i)) (failed : μ → μ)
    (hf : ∀ w, P w → ∀ v : σ, f (Replays.apply w v) = f v) (items : List (ι × Option Nat))
    (s : Session σ ω μ) :
    f (Txn.attemptEach body failed items s).2.view = f s.view := by
  obtain ⟨ws, -, hview, hws⟩ := attemptEach_writes hb failed items s
  rw [hview]
  exact replay_reads (fun w hw => hf w (hws w hw)) s.view

theorem attemptEach_dead (hb : ∀ i, Composed P (body i)) (failed : μ → μ)
    (items : List (ι × Option Nat))
    (hs : s.invalid = true) : (Txn.attemptEach body failed items s).2.invalid = true := by
  induction items generalizing s with
  | nil => exact hs
  | cons item items ih =>
      obtain ⟨i, fault⟩ := item
      have hdead : (Txn.armed fault (body i) s).2.invalid = true :=
        (hb i).dead (s := { s with fault := fault }) hs
      unfold Txn.attemptEach
      rcases hr : Txn.armed fault (body i) s with ⟨e | a, s₁⟩ <;> rw [hr] at hdead
      · exact ih (s := s₁.note failed) hdead
      · exact ih hdead

/-- Once a statement has been refused the loop never recovers. -/
theorem attemptEach_invalid (hb : ∀ i, Composed P (body i)) (failed : μ → μ)
    (items : List (ι × Option Nat))
    (hs : s.invalid = false) (hfail : (spared body failed items s).length < items.length) :
    (Txn.attemptEach body failed items s).2.invalid = true := by
  induction items generalizing s with
  | nil => simp at hfail
  | cons item items ih =>
      obtain ⟨i, fault⟩ := item
      have halive := (hb i).armed fault hs
      unfold spared at hfail
      unfold Txn.attemptEach
      rcases hr : Txn.armed fault (body i) s with ⟨e | a, s₁⟩ <;> rw [hr] at halive hfail
      · cases e with
        | database => exact attemptEach_dead hb failed items (s := s₁.note failed) (halive.mpr rfl)
        | raised e =>
            exact ih (s := s₁.note failed) (by simpa [Session.note] using halive)
              (Nat.lt_of_succ_lt_succ hfail)
        | invalidated =>
            exact ih (s := s₁.note failed) (by simpa [Session.note] using halive)
              (Nat.lt_of_succ_lt_succ hfail)
      · exact ih (by simpa using halive) (Nat.lt_of_succ_lt_succ hfail)

/-- Where no statement is refused the loop runs as if none could be. -/
theorem attemptEach_spared (hb : ∀ i, Composed P (body i)) (failed : μ → μ)
    (items : List (ι × Option Nat))
    (hs : s.invalid = false) (hall : (spared body failed items s).length = items.length) :
    Txn.attemptEach body failed items s =
        Txn.attemptEach body failed ((spared body failed items s).map fun i => (i, none)) s ∧
      (Txn.attemptEach body failed items s).2.invalid = false := by
  induction items generalizing s with
  | nil => exact ⟨rfl, hs⟩
  | cons item items ih =>
      obtain ⟨i, fault⟩ := item
      have halive := (hb i).armed fault hs
      have hsteady := (hb i).armed_steady (s := s) fault
      unfold spared at hall ⊢
      unfold Txn.attemptEach
      rcases hr : Txn.armed fault (body i) s with ⟨e | a, s₁⟩ <;> rw [hr] at halive hsteady hall
      · cases e with
        | database =>
            have hle := spared_length_le body failed items s
            have hmore : (spared body failed items s).length = items.length + 1 := hall
            omega
        | raised e =>
            simp only [List.map_cons, ← hsteady (by simp)]
            exact ih (s := s₁.note failed) (by simpa [Session.note] using halive)
              (Nat.succ.inj hall)
        | invalidated =>
            simp only [List.map_cons, ← hsteady (by simp)]
            exact ih (s := s₁.note failed) (by simpa [Session.note] using halive)
              (Nat.succ.inj hall)
      · simp only [List.map_cons, ← hsteady (by simp)]
        exact ih (by simpa using halive) (Nat.succ.inj hall)

end Composed

end Txn

end LeadPipe.Framework
