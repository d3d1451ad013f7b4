import Mathlib.Data.List.Basic

/-!
# Programs that ask

A program that asks its surroundings and goes on with whatever comes back. Its runs are the ways
the surroundings can answer, in whatever order and with whatever contents: a property of all runs
holds against an adversary.

`Ensures ok post m h` says, of every run of `m` after the events `h`, that `ok` holds of each event
given the events before it, and `post` of all the events and the outcome. Its rules follow the way
a program is put together.
-/

namespace LeadPipe.Framework

/-- What was asked and what came back. -/
structure Event {C : Type} (A : C → Type) where
  call : C
  answer : A call

/-- `C` are the calls, `A c` the answers to `c`, `ε` the exceptions. -/
inductive Dialogue {C : Type} (A : C → Type) (ε α : Type) : Type
  | pure (a : α)
  | raise (e : ε)
  | call (c : C) (next : A c → Dialogue A ε α)

namespace Dialogue

variable {C : Type} {A : C → Type} {ε α β : Type}

def bind : Dialogue A ε α → (α → Dialogue A ε β) → Dialogue A ε β
  | pure a, f => f a
  | raise e, _ => raise e
  | call c next, f => call c fun a => bind (next a) f

instance instMonadDialogue : Monad (Dialogue A ε) where
  pure := pure
  bind := bind

def ask (c : C) : Dialogue A ε (A c) := call c pure

def lift : Except ε α → Dialogue A ε α
  | .ok a => pure a
  | .error e => raise e

/-- The body of a `try`: what it raises is returned. -/
def attempt : Dialogue A ε α → Dialogue A ε (Except ε α)
  | pure a => pure (.ok a)
  | raise e => pure (.error e)
  | call c next => call c fun a => attempt (next a)

def Run : Dialogue A ε α → List (Event A) → Except ε α → Prop
  | pure a, trace, out => trace = [] ∧ out = .ok a
  | raise e, trace, out => trace = [] ∧ out = .error e
  | call c next, trace, out => ∃ a rest, trace = ⟨c, a⟩ :: rest ∧ Run (next a) rest out

def exec (answer : List (Event A) → (c : C) → A c) :
    Dialogue A ε α → List (Event A) → List (Event A) × Except ε α
  | pure a, _ => ([], .ok a)
  | raise e, _ => ([], .error e)
  | call c next, h =>
      let event : Event A := ⟨c, answer h c⟩
      let rest := exec answer (next (answer h c)) (h ++ [event])
      (event :: rest.1, rest.2)

theorem exec_call (answer : List (Event A) → (c : C) → A c) (c : C) (next : A c → Dialogue A ε α)
    (h : List (Event A)) :
    exec answer (call c next) h =
      (⟨c, answer h c⟩ :: (exec answer (next (answer h c)) (h ++ [⟨c, answer h c⟩])).1,
        (exec answer (next (answer h c)) (h ++ [⟨c, answer h c⟩])).2) := rfl

theorem exec_run (answer : List (Event A) → (c : C) → A c) (m : Dialogue A ε α)
    (h : List (Event A)) : m.Run (exec answer m h).1 (exec answer m h).2 := by
  induction m generalizing h with
  | pure a => exact ⟨rfl, rfl⟩
  | raise e => exact ⟨rfl, rfl⟩
  | call c next ih => exact ⟨answer h c, _, rfl, ih _ _⟩

/-- Every answer of the run is one that the surroundings give. -/
theorem exec_answered (answer : List (Event A) → (c : C) → A c) {m : Dialogue A ε α}
    {h : List (Event A)} {event : Event A} (hmem : event ∈ (exec answer m h).1) :
    ∃ h', event.answer = answer h' event.call := by
  induction m generalizing h with
  | pure a => cases hmem
  | raise e => cases hmem
  | call c next ih =>
      rcases List.mem_cons.mp hmem with rfl | hrest
      · exact ⟨h, rfl⟩
      · exact ih _ hrest

section Executed

variable {answer : List (Event A) → (c : C) → A c} {m : Dialogue A ε α}
  {f : α → Dialogue A ε β} {h trace : List (Event A)}

theorem exec_bind_ok {a : α} (hm : exec answer m h = (trace, .ok a)) :
    exec answer (m >>= f) h = (trace ++ (exec answer (f a) (h ++ trace)).1,
      (exec answer (f a) (h ++ trace)).2) := by
  change exec answer (bind m f) h = _
  induction m generalizing h trace with
  | pure b =>
      obtain ⟨rfl, hb⟩ := Prod.mk.inj hm
      obtain rfl := Except.ok.inj hb
      rw [List.append_nil]
      rfl
  | raise e => cases (Prod.mk.inj hm).2
  | call c next ih =>
      obtain ⟨rfl, hout⟩ := Prod.mk.inj hm
      have hrest := ih (answer h c) (Prod.ext rfl hout)
      rw [bind, exec_call, hrest]
      simp only [List.append_assoc, List.cons_append, List.nil_append]

theorem exec_bind_error {e : ε} (hm : exec answer m h = (trace, .error e)) :
    exec answer (m >>= f) h = (trace, .error e) := by
  change exec answer (bind m f) h = _
  induction m generalizing h trace with
  | pure b => cases (Prod.mk.inj hm).2
  | raise e =>
      obtain ⟨rfl, he⟩ := Prod.mk.inj hm
      obtain rfl := Except.error.inj he
      rfl
  | call c next ih =>
      obtain ⟨rfl, hout⟩ := Prod.mk.inj hm
      have hrest := ih (answer h c) (Prod.ext rfl hout)
      rw [bind, exec_call, hrest]

theorem exec_lift (x : Except ε α) (h : List (Event A)) :
    exec answer (lift x : Dialogue A ε α) h = ([], x) := by
  cases x with
  | ok a => rfl
  | error e => rfl

theorem exec_attempt (answer : List (Event A) → (c : C) → A c) (m : Dialogue A ε α)
    (h : List (Event A)) :
    exec answer (attempt m) h = ((exec answer m h).1, .ok (exec answer m h).2) := by
  induction m generalizing h with
  | pure b => rfl
  | raise e => rfl
  | call c next ih =>
      rw [attempt, exec_call, exec_call, ih]

end Executed

def Ensures (ok : List (Event A) → Event A → Prop)
    (post : List (Event A) → Except ε α → Prop) : Dialogue A ε α → List (Event A) → Prop
  | pure a, h => post h (.ok a)
  | raise e, h => post h (.error e)
  | call c next, h => ∀ a, ok h ⟨c, a⟩ ∧ Ensures ok post (next a) (h ++ [⟨c, a⟩])

variable {ok ok' : List (Event A) → Event A → Prop}
  {post post' : List (Event A) → Except ε α → Prop} {m : Dialogue A ε α} {h : List (Event A)}

/-- Every event of every run is `ok` when it happens, and `post` holds in the end. -/
theorem Ensures.run (hm : Ensures ok post m h) {trace : List (Event A)} {out : Except ε α}
    (hrun : m.Run trace out) :
    (∀ before event after, trace = before ++ event :: after → ok (h ++ before) event) ∧
      post (h ++ trace) out := by
  induction m generalizing h trace with
  | pure a =>
      obtain ⟨rfl, rfl⟩ := hrun
      rw [List.append_nil]
      exact ⟨by simp, hm⟩
  | raise e =>
      obtain ⟨rfl, rfl⟩ := hrun
      rw [List.append_nil]
      exact ⟨by simp, hm⟩
  | call c next ih =>
      obtain ⟨a, rest, rfl, hrest⟩ := hrun
      obtain ⟨hfirst, hnext⟩ := hm a
      obtain ⟨hevents, hpost⟩ := ih a hnext hrest
      rw [List.append_assoc] at hpost
      refine ⟨fun before event after htrace => ?_, hpost⟩
      cases before with
      | nil =>
          obtain ⟨rfl, -⟩ := List.cons.inj htrace
          rwa [List.append_nil]
      | cons first before =>
          obtain ⟨rfl, hrest⟩ := List.cons.inj htrace
          have hok := hevents before event after hrest
          rwa [List.append_assoc] at hok

/-- One property of what is returned, one of what is raised. -/
def Outcome (good : α → Prop) (bad : ε → Prop) : Except ε α → Prop
  | .ok a => good a
  | .error e => bad e

theorem Ensures.mono (hm : Ensures ok post m h)
    (hok : ∀ h' event, h <+: h' → ok h' event → ok' h' event)
    (hpost : ∀ h' out, h <+: h' → post h' out → post' h' out) : Ensures ok' post' m h := by
  induction m generalizing h with
  | pure a => exact hpost h (.ok a) (List.prefix_refl h) hm
  | raise e => exact hpost h (.error e) (List.prefix_refl h) hm
  | call c next ih =>
      intro a
      obtain ⟨hfirst, hnext⟩ := hm a
      have hlonger : h <+: h ++ [⟨c, a⟩] := List.prefix_append h _
      refine ⟨hok h _ (List.prefix_refl h) hfirst, ih a hnext ?_ ?_⟩
      · exact fun h' event hh => hok h' event (hlonger.trans hh)
      · exact fun h' out hh => hpost h' out (hlonger.trans hh)

theorem Ensures.bind {f : α → Dialogue A ε β} {post : List (Event A) → Except ε β → Prop}
    (hm : Ensures ok (fun h' out => match out with
      | .ok a => Ensures ok post (f a) h'
      | .error e => post h' (.error e)) m h) : Ensures ok post (m >>= f) h := by
  change Ensures ok post (Dialogue.bind m f) h
  induction m generalizing h with
  | pure a => exact hm
  | raise e => exact hm
  | call c next ih => exact fun a => ⟨(hm a).1, ih a (hm a).2⟩

theorem Ensures.any (m : Dialogue A ε α) (h : List (Event A)) :
    Ensures (fun _ _ => True) (fun h' _ => h <+: h') m h := by
  induction m generalizing h with
  | pure a => exact List.prefix_refl h
  | raise e => exact List.prefix_refl h
  | call c next ih =>
      intro a
      refine ⟨trivial, (ih a _).mono (fun _ _ _ hok => hok) fun h' _ _ hh => ?_⟩
      exact (List.prefix_append h _).trans hh

theorem Ensures.and (hm : Ensures ok post m h) (hm' : Ensures ok' post' m h) :
    Ensures (fun h' event => ok h' event ∧ ok' h' event) (fun h' out => post h' out ∧ post' h' out)
      m h := by
  induction m generalizing h with
  | pure a => exact ⟨hm, hm'⟩
  | raise e => exact ⟨hm, hm'⟩
  | call c next ih => exact fun a => ⟨⟨(hm a).1, (hm' a).1⟩, ih a (hm a).2 (hm' a).2⟩

theorem Ensures.seq {f : α → Dialogue A ε β} {after : List (Event A) → Except ε β → Prop}
    (hm : Ensures ok post m h)
    (hf : ∀ h' a, h <+: h' → post h' (.ok a) → Ensures ok after (f a) h')
    (he : ∀ h' e, h <+: h' → post h' (.error e) → after h' (.error e)) :
    Ensures ok after (m >>= f) h := by
  apply Ensures.bind
  apply hm.mono (fun _ _ _ hok => hok)
  intro h' out hlonger hpost
  cases out with
  | ok a => exact hf h' a hlonger hpost
  | error e => exact he h' e hlonger hpost

/-- What is tried ends in a value, whatever it ends in itself. -/
theorem Ensures.attempt (hm : Ensures ok post m h) :
    Ensures ok (fun h' tried => ∃ out, tried = .ok out ∧ post h' out) (Dialogue.attempt m) h := by
  induction m generalizing h with
  | pure a => exact ⟨.ok a, rfl, hm⟩
  | raise e => exact ⟨.error e, rfl, hm⟩
  | call c next ih => exact fun a => ⟨(hm a).1, ih a (hm a).2⟩

theorem Ensures.ask {c : C} {post : List (Event A) → Except ε (A c) → Prop}
    (hc : ∀ a, ok h ⟨c, a⟩ ∧ post (h ++ [⟨c, a⟩]) (.ok a)) :
    Ensures ok post (Dialogue.ask c) h := hc

theorem Ensures.lift {x : Except ε α} (hx : post h x) : Ensures ok post (Dialogue.lift x) h := by
  cases x with
  | ok a => exact hx
  | error e => exact hx

theorem Ensures.lift_bind {x : Except ε α} {f : α → Dialogue A ε β}
    {post : List (Event A) → Except ε β → Prop}
    (hx : match x with
      | .ok a => Ensures ok post (f a) h
      | .error e => post h (.error e)) : Ensures ok post (Dialogue.lift x >>= f) h :=
  Ensures.bind (Ensures.lift hx)

/-- The program makes only such calls, whatever comes back. -/
def Only (p : C → Prop) : Dialogue A ε α → Prop
  | pure _ | raise _ => True
  | call c next => p c ∧ ∀ a, Only p (next a)

variable {p : C → Prop}

theorem Only.bind {m : Dialogue A ε α} {f : α → Dialogue A ε β} (hm : Only p m)
    (hf : ∀ a, Only p (f a)) : Only p (m >>= f) := by
  change Only p (Dialogue.bind m f)
  induction m with
  | pure a => exact hf a
  | raise e => trivial
  | call c next ih => exact ⟨hm.1, fun a => ih a (hm.2 a)⟩

theorem Only.attempt {m : Dialogue A ε α} (hm : Only p m) : Only p (Dialogue.attempt m) := by
  induction m with
  | pure a => trivial
  | raise e => trivial
  | call c next ih => exact ⟨hm.1, fun a => ih a (hm.2 a)⟩

/-- What a program ensures from the start is true of its own part of any run. -/
theorem Only.part {m : Dialogue A ε α} (ho : Only p m) (hm : Ensures ok post m [])
    (h : List (Event A)) :
    Ensures (fun _ _ => True)
      (fun h' out => ∃ part, h' = h ++ part ∧ (∀ e ∈ part, p e.call) ∧ post part out) m h := by
  have hlater : ∀ g, Ensures ok post m g → Ensures (fun _ _ => True)
      (fun h' out => ∃ part, h' = h ++ part ∧ (∀ e ∈ part, p e.call) ∧ post (g ++ part) out)
        m h := by
    clear hm
    induction m generalizing h with
    | pure a =>
        intro g hm
        exact ⟨[], by simp, by simp, by rwa [List.append_nil]⟩
    | raise e =>
        intro g hm
        exact ⟨[], by simp, by simp, by rwa [List.append_nil]⟩
    | call c next ih =>
        intro g hm a
        refine ⟨trivial, (ih a (ho.2 a) _ _ (hm a).2).mono (fun _ _ _ hok => hok) ?_⟩
        intro h' out _ hpart
        obtain ⟨part, hh, honly, hpost⟩ := hpart
        refine ⟨⟨c, a⟩ :: part, by simp [hh], ?_, by simpa using hpost⟩
        intro e he
        rcases List.mem_cons.mp he with rfl | he
        · exact ho.1
        · exact honly e he
  exact hlater [] hm

theorem Only.ask {c : C} (hc : p c) : Only p (Dialogue.ask c : Dialogue A ε (A c)) :=
  ⟨hc, fun _ => trivial⟩

theorem Only.lift (x : Except ε α) : Only p (Dialogue.lift x : Dialogue A ε α) := by
  cases x with
  | ok a => trivial
  | error e => trivial

/-- What the calls leave no mark in is as it was. -/
theorem Only.filterMap {m : Dialogue A ε α} (hm : Only p m) {γ : Type} {f : Event A → Option γ}
    (hf : ∀ c a, p c → f ⟨c, a⟩ = none) (h : List (Event A)) :
    Ensures (fun _ _ => True) (fun h' _ => h'.filterMap f = h.filterMap f) m h := by
  induction m generalizing h with
  | pure a => rfl
  | raise e => rfl
  | call c next ih =>
      intro a
      refine ⟨trivial, (ih a (hm.2 a) _).mono (fun _ _ _ hok => hok) fun h' out _ hsame => ?_⟩
      rw [hsame, List.filterMap_append, List.filterMap_cons_none (hf c a hm.1)]
      exact List.append_nil _

end Dialogue

end LeadPipe.Framework
