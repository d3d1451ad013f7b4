import LeadPipe.Framework.Tally

/-!
# What a session that stays valid has done

`Upholds P m Q E` is about the view and the counters together, for sessions that are valid in the
end: from those that satisfy `P`, a result comes with those that satisfy `Q`, and an exception with
those that satisfy `E`. A session that a refused statement has left invalid is never committed, and
nothing is said about it.
-/

namespace LeadPipe.Framework.Txn

variable {σ ω μ ε α β ι : Type}

structure Upholds (P : σ → μ → Prop) (m : Txn σ ω μ ε α) (Q : α → σ → μ → Prop)
    (E : σ → μ → Prop) : Prop where
  dead : ∀ s, s.invalid = true → (m s).2.invalid = true
  ok : ∀ s a s', P s.view s.notes → m s = (.ok a, s') → s'.invalid = true ∨ Q a s'.view s'.notes
  error : ∀ s e s', P s.view s.notes → m s = (.error e, s') →
    s'.invalid = true ∨ E s'.view s'.notes

namespace Upholds

variable {P P' : σ → μ → Prop} {Q Q' : α → σ → μ → Prop} {R : β → σ → μ → Prop}
  {E E' : σ → μ → Prop} {m : Txn σ ω μ ε α}

theorem conseq (h : Upholds P m Q E) (hP : ∀ v n, P' v n → P v n) (hQ : ∀ a v n, Q a v n → Q' a v n)
    (hE : ∀ v n, E v n → E' v n) : Upholds P' m Q' E' where
  dead := h.dead
  ok s a s' hs hm := (h.ok s a s' (hP _ _ hs) hm).imp_right (hQ _ _ _)
  error s e s' hs hm := (h.error s e s' (hP _ _ hs) hm).imp_right (hE _ _)

theorem pure {a : α} (h : ∀ v n, P v n → Q a v n) :
    Upholds P (Pure.pure a : Txn σ ω μ ε α) Q E where
  dead _ hs := hs
  ok s b s' hs hm := by
    cases hm
    exact .inr (h _ _ hs)
  error s e s' _ hm := by cases hm

theorem raise {e : ε} (h : ∀ v n, P v n → E v n) :
    Upholds P (Txn.raise e : Txn σ ω μ ε α) Q E where
  dead _ hs := hs
  ok s a s' _ hm := by cases hm
  error s e' s' hs hm := by
    cases hm
    exact .inr (h _ _ hs)

theorem note {f : μ → μ} {Q : σ → μ → Prop} (h : ∀ v n, P v n → Q v (f n)) :
    Upholds P (Txn.note f : Txn σ ω μ ε Unit) (fun _ => Q) E where
  dead _ hs := hs
  ok s a s' hs hm := by
    cases hm
    exact .inr (h _ _ hs)
  error s e s' _ hm := by cases hm

theorem counters :
    Upholds P (Txn.counters : Txn σ ω μ ε μ) (fun a v n => P v n ∧ a = n) E where
  dead _ hs := hs
  ok s a s' hs hm := by
    cases hm
    exact .inr ⟨hs, rfl⟩
  error s e s' _ hm := by cases hm

theorem peek (f : σ → α) :
    Upholds P (Txn.peek f : Txn σ ω μ ε α) (fun a v n => P v n ∧ a = f v) E where
  dead _ hs := hs
  ok s a s' hs hm := by
    cases hm
    exact .inr ⟨hs, rfl⟩
  error s e s' _ hm := by cases hm

theorem statement : Upholds P (Txn.statement : Txn σ ω μ ε Unit) (fun _ => P) E where
  dead s hs := by simp [Txn.statement, hs]
  ok s a s' hs hm := by
    unfold Txn.statement at hm
    split at hm
    · cases hm
    · split at hm <;> cases hm
      · exact .inr hs
      · exact .inr hs
  error s e s' _ hm := by
    unfold Txn.statement at hm
    split at hm
    · rename_i hinvalid
      cases hm
      exact .inl hinvalid
    · split at hm <;> cases hm
      exact .inl rfl

theorem emit [Replays ω σ] {w : ω} {Q : σ → μ → Prop}
    (h : ∀ v n, P v n → Q (Replays.apply w v) n) :
    Upholds P (Txn.emit w : Txn σ ω μ ε Unit) (fun _ => Q) E where
  dead _ hs := hs
  ok s a s' hs hm := by
    cases hm
    exact .inr (h _ _ hs)
  error s e s' _ hm := by cases hm

theorem bind {f : α → Txn σ ω μ ε β} (hm : Upholds P m Q E) (hf : ∀ a, Upholds (Q a) (f a) R E) :
    Upholds P (m >>= f) R E where
  dead s hs := by
    have hdead := hm.dead s hs
    rcases hr : m s with ⟨e | a, s₁⟩ <;> rw [hr] at hdead
    · rw [bind_error hr]
      exact hdead
    · rw [bind_ok hr]
      exact (hf a).dead s₁ hdead
  ok s b s' hs hrun := by
    rcases hr : m s with ⟨e | a, s₁⟩
    · rw [bind_error hr] at hrun
      cases hrun
    · rw [bind_ok hr] at hrun
      rcases hm.ok s a s₁ hs hr with hinvalid | hmid
      · have hdead := (hf a).dead s₁ hinvalid
        rw [hrun] at hdead
        exact .inl hdead
      · exact (hf a).ok s₁ b s' hmid hrun
  error s e s' hs hrun := by
    rcases hr : m s with ⟨e' | a, s₁⟩
    · rw [bind_error hr] at hrun
      cases hrun
      exact hm.error s _ _ hs hr
    · rw [bind_ok hr] at hrun
      rcases hm.ok s a s₁ hs hr with hinvalid | hmid
      · have hdead := (hf a).dead s₁ hinvalid
        rw [hrun] at hdead
        exact .inl hdead
      · exact (hf a).error s₁ e s' hmid hrun

theorem lift {x : Except ε α} (h : ∀ v n, P v n → E v n) :
    Upholds P (Txn.lift x : Txn σ ω μ ε α) (fun _ => P) E := by
  cases x with
  | ok a => exact pure fun _ _ hs => hs
  | error e => exact raise h

theorem query (f : σ → α) :
    Upholds P (Txn.query f : Txn σ ω μ ε α) (fun a v n => P v n ∧ a = f v) E :=
  bind statement fun _ => peek f

theorem read (f : σ → α) : Upholds P (Txn.query f : Txn σ ω μ ε α) (fun _ => P) E :=
  (query f).conseq (fun _ _ hs => hs) (fun _ _ _ hs => hs.1) fun _ _ hs => hs

theorem execute [Replays ω σ] {w : ω} {Q : σ → μ → Prop}
    (h : ∀ v n, P v n → Q (Replays.apply w v) n) :
    Upholds P (Txn.execute w : Txn σ ω μ ε Unit) (fun _ => Q) E :=
  bind statement fun _ => emit h

theorem and (h : Upholds P m Q E) (h' : Upholds P' m Q' E') :
    Upholds (fun v n => P v n ∧ P' v n) m (fun a v n => Q a v n ∧ Q' a v n)
      fun v n => E v n ∧ E' v n where
  dead := h.dead
  ok s a s' hs hm := by
    rcases h.ok s a s' hs.1 hm with hinvalid | hq
    · exact .inl hinvalid
    · exact (h'.ok s a s' hs.2 hm).imp_right fun hq' => ⟨hq, hq'⟩
  error s e s' hs hm := by
    rcases h.error s e s' hs.1 hm with hinvalid | he
    · exact .inl hinvalid
    · exact (h'.error s e s' hs.2 hm).imp_right fun he' => ⟨he, he'⟩

theorem frame (h : Upholds P m Q E) (φ : Prop) :
    Upholds (fun v n => P v n ∧ φ) m (fun a v n => Q a v n ∧ φ) E where
  dead := h.dead
  ok s a s' hs hm := (h.ok s a s' hs.1 hm).imp_right fun hq => ⟨hq, hs.2⟩
  error s e s' hs hm := h.error s e s' hs.1 hm

theorem composed [Replays ω σ] {W : ω → Prop} (h : Composed W m)
    (hW : ∀ v n w, P v n → W w → P (Replays.apply w v) n)
    (hN : ∀ v n (f : μ → μ), P v n → P v (f n)) :
    Upholds P m (fun _ => P) P := by
  induction h with
  | pure a => exact pure fun _ _ hs => hs
  | raise e => exact raise fun _ _ hs => hs
  | note f => exact note fun _ _ hs => hN _ _ f hs
  | peek f => exact (peek f).conseq (fun _ _ hs => hs) (fun _ _ _ hs => hs.1) fun _ _ hs => hs
  | counters => exact counters.conseq (fun _ _ hs => hs) (fun _ _ _ hs => hs.1) fun _ _ hs => hs
  | statement => exact statement
  | emit w hw => exact emit fun _ _ hs => hW _ _ w hs hw
  | bind _ _ ihm ihf => exact bind ihm ihf

theorem rules [Replays ω σ] (P : σ → μ → Prop) :
    Rules (fun _ : ω => False) (fun _ => False)
      fun _ (m : Txn σ ω μ ε _) => Upholds P m (fun _ => P) P where
  pure _ := pure fun _ _ hs => hs
  raise _ := raise fun _ _ hs => hs
  note hf := hf.elim
  peek f := (peek f).conseq (fun _ _ hs => hs) (fun _ _ _ hs => hs.1) fun _ _ hs => hs
  statement := statement
  emit hw := hw.elim
  bind hm hf := bind hm hf

theorem settled [Replays ω σ] {W : ω → Prop} {P E : σ → Prop} {Q : α → σ → Prop}
    (h : Composed W m)
    (hok : ∀ s a s', s.Healthy → P s.view → m s = (.ok a, s') → Q a s'.view)
    (herror : ∀ s e s', s.Healthy → P s.view → m s = (.error e, s') → E s'.view) :
    Upholds (fun v _ => P v) m (fun a v _ => Q a v) fun v _ => E v := by
  -- a session that is left valid has run as if nothing could have been refused
  have hquiet (s : Session σ ω μ) {r : Except (Exn ε) α} {s' : Session σ ω μ}
      (hm : m s = (r, s')) : s'.invalid = true ∨
        ∃ s'', m { s with fault := none } = (r, s'') ∧ s''.view = s'.view ∧ s.invalid = false := by
    by_cases hinvalid : s.invalid = true
    · have hdead := h.dead hinvalid
      rw [hm] at hdead
      exact .inl hdead
    · have hvalid : s.invalid = false := by simpa using hinvalid
      cases hfault : s.fault with
      | none =>
          have hsame : { s with fault := none } = s := by rw [← hfault]
          exact .inr ⟨s', by rw [hsame, hm], rfl, hvalid⟩
      | some n =>
          have hsame : { s with fault := some n } = s := by rw [← hfault]
          by_cases hrefused : r = .error .database
          · have halive := (h.alive hvalid).mpr (by rw [hm, hrefused])
            rw [hm] at halive
            exact .inl halive
          · obtain ⟨-, hsteady⟩ := h.steady (s := s) (n := n) (by rw [hsame, hm]) hrefused
            exact .inr ⟨_, hsteady, rfl, hvalid⟩
  refine ⟨fun s hs => h.dead hs, fun s a s' hs hm => ?_, fun s e s' hs hm => ?_⟩
  · rcases hquiet s hm with hinvalid | ⟨s'', hrun, hview, hvalid⟩
    · exact .inl hinvalid
    · exact .inr (hview ▸ hok { s with fault := none } a s'' ⟨hvalid, rfl⟩ hs hrun)
  · rcases hquiet s hm with hinvalid | ⟨s'', hrun, hview, hvalid⟩
    · exact .inl hinvalid
    · exact .inr (hview ▸ herror { s with fault := none } e s'' ⟨hvalid, rfl⟩ hs hrun)

theorem attemptEach {body : ι → Txn σ ω μ ε Unit} {failed : μ → μ}
    {items : List (ι × Option Nat)}
    (hbody : ∀ item ∈ items, Upholds P (body item.1) (fun _ => P) P)
    (hfailed : ∀ v n, P v n → P v (failed n)) :
    Upholds P (Txn.attemptEach body failed items) (fun _ => P) E := by
  induction items with
  | nil => exact pure fun _ _ hs => hs
  | cons item items ih =>
      obtain ⟨i, fault⟩ := item
      have hfirst := hbody _ List.mem_cons_self
      replace ih := ih fun item hitem => hbody item (List.mem_cons_of_mem _ hitem)
      have hturn (s : Session σ ω μ) :
          (s.invalid = true → ∃ s₁, Txn.attemptEach body failed ((i, fault) :: items) s =
            Txn.attemptEach body failed items s₁ ∧ s₁.invalid = true) ∧
          (P s.view s.notes → ∃ s₁, Txn.attemptEach body failed ((i, fault) :: items) s =
            Txn.attemptEach body failed items s₁ ∧
              (s₁.invalid = true ∨ P s₁.view s₁.notes)) := by
        have hdead := hfirst.dead { s with fault := fault }
        rcases hr : body i { s with fault := fault } with ⟨e | a, s₁⟩ <;> rw [hr] at hdead
        · have harmed : Txn.armed fault (body i) s = (.error e, { s₁ with fault := none }) := by
            unfold Txn.armed
            rw [hr]
          rw [attemptEach_error_cons harmed]
          refine ⟨fun hs => ⟨_, rfl, hdead hs⟩, fun hs => ⟨_, rfl, ?_⟩⟩
          exact (hfirst.error { s with fault := fault } e s₁ hs hr).imp_right (hfailed _ _)
        · have harmed : Txn.armed fault (body i) s = (.ok a, { s₁ with fault := none }) := by
            unfold Txn.armed
            rw [hr]
          rw [attemptEach_ok_cons harmed]
          refine ⟨fun hs => ⟨_, rfl, hdead hs⟩, fun hs => ⟨_, rfl, ?_⟩⟩
          exact hfirst.ok { s with fault := fault } a s₁ hs hr
      refine ⟨fun s hs => ?_, fun s a s' hs hrun => ?_, fun s e s' hs hrun => ?_⟩
      · obtain ⟨s₁, hrest, hinvalid⟩ := (hturn s).1 hs
        rw [hrest]
        exact ih.dead s₁ hinvalid
      · obtain ⟨s₁, hrest, hinvalid | hmid⟩ := (hturn s).2 hs
        · have hdead := ih.dead s₁ hinvalid
          rw [← hrest, hrun] at hdead
          exact .inl hdead
        · exact ih.ok s₁ a s' hmid (hrest ▸ hrun)
      · obtain ⟨s₁, hrest, hinvalid | hmid⟩ := (hturn s).2 hs
        · have hdead := ih.dead s₁ hinvalid
          rw [← hrest, hrun] at hdead
          exact .inl hdead
        · exact ih.error s₁ e s' hmid (hrest ▸ hrun)

/-- What is committed was left by a session that is valid. -/
theorem commits (h : Upholds P m Q E) {s : Session σ ω μ} (hs : P s.view s.notes) {v : σ}
    (hcommit : Txn.commit m s = .ok v) : ∃ a n, Q a v n := by
  unfold Txn.commit at hcommit
  rcases hr : m s with ⟨e | a, s₁⟩ <;> rw [hr] at hcommit
  · cases hcommit
  · dsimp only at hcommit
    split at hcommit
    · cases hcommit
    · rename_i hvalid
      cases hcommit
      exact ⟨a, s₁.notes, (h.ok s a s₁ hs hr).resolve_left hvalid⟩

end Upholds

end LeadPipe.Framework.Txn
