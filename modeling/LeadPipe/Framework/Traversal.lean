/-!
# Traversals

What a computation that may fail and has not failed says of its parts, and `mapM` over a list that
is rewritten before, rewritten after, or thinned out. The matches of a pattern are replaced one after
the other, found from the left and not overlapping; a replacement may fail.
-/

namespace LeadPipe.Framework

variable {α α' β β' γ ε : Type}

theorem mapM_map_eq {m : Type → Type} [Monad m] [LawfulMonad m] {f : α → m β} {g : α' → m β'}
    {before : α → α'} {after : β → β'} (h : ∀ a, g (before a) = after <$> f a) (l : List α) :
    (l.map before).mapM g = List.map after <$> l.mapM f := by
  induction l with
  | nil => simp
  | cons a l ih => simp [h, ih]

section Option

variable {f : α → Option β} {a : α} {l : List α} {l' : List β}

theorem mapM_cons_some (h : (a :: l).mapM f = some l') :
    ∃ b rest, f a = some b ∧ l.mapM f = some rest ∧ l' = b :: rest := by
  rw [List.mapM_cons] at h
  obtain ⟨b, hhead, h⟩ := Option.bind_eq_some_iff.mp h
  obtain ⟨rest, hrest, h⟩ := Option.bind_eq_some_iff.mp h
  exact ⟨b, rest, hhead, hrest, (Option.some.inj h).symm⟩

theorem mapM_mem (h : l.mapM f = some l') : ∀ b ∈ l', ∃ a ∈ l, f a = some b := by
  induction l generalizing l' with
  | nil =>
      cases h
      simp
  | cons a l ih =>
      obtain ⟨b, rest, hhead, hrest, rfl⟩ := mapM_cons_some h
      intro c hc
      rcases List.mem_cons.mp hc with rfl | hmem
      · exact ⟨a, List.mem_cons_self, hhead⟩
      · obtain ⟨a', ha', hc'⟩ := ih hrest c hmem
        exact ⟨a', List.mem_cons_of_mem a ha', hc'⟩

theorem mapM_reads {read : β → α} (h : ∀ a b, f a = some b → read b = a)
    (hl : l.mapM f = some l') : l'.map read = l := by
  induction l generalizing l' with
  | nil =>
      cases hl
      rfl
  | cons a l ih =>
      obtain ⟨b, rest, hhead, hrest, rfl⟩ := mapM_cons_some hl
      rw [List.map_cons, h a b hhead, ih hrest]

end Option

section Except

variable {f : α → Except ε β} {a : α} {l : List α} {l' : List β}

theorem bind_eq_ok {x : Except ε α} {b : β} (h : x >>= f = .ok b) :
    ∃ a, x = .ok a ∧ f a = .ok b := by
  cases x with
  | error e => cases h
  | ok a => exact ⟨a, rfl, h⟩

theorem map_eq_ok {g : α → β} {x : Except ε α} {b : β} (h : g <$> x = .ok b) :
    ∃ a, x = .ok a ∧ g a = b := by
  cases x with
  | error e => cases h
  | ok a => exact ⟨a, rfl, Except.ok.inj h⟩

theorem mapM_cons_ok (h : (a :: l).mapM f = .ok l') :
    ∃ b rest, f a = .ok b ∧ l.mapM f = .ok rest ∧ l' = b :: rest := by
  rw [List.mapM_cons] at h
  obtain ⟨b, hhead, h⟩ := bind_eq_ok h
  obtain ⟨rest, hrest, h⟩ := bind_eq_ok h
  exact ⟨b, rest, hhead, hrest, (Except.ok.inj h).symm⟩

theorem mapM_keeps {p : α → γ} {q : β → γ} (h : ∀ a b, f a = .ok b → q b = p a)
    (hl : l.mapM f = .ok l') : l'.map q = l.map p := by
  induction l generalizing l' with
  | nil =>
      cases hl
      rfl
  | cons a l ih =>
      obtain ⟨b, rest, hhead, hrest, rfl⟩ := mapM_cons_ok hl
      rw [List.map_cons, List.map_cons, h a b hhead, ih hrest]

theorem mapM_filter {p : α → Bool} {q : β → Bool} (h : ∀ a b, f a = .ok b → q b = p a)
    (hok : ∀ a, p a = false → ∃ b, f a = .ok b) (l : List α) :
    (l.filter p).mapM f = List.filter q <$> l.mapM f := by
  induction l with
  | nil => rfl
  | cons a l ih =>
      rw [List.mapM_cons]
      cases hp : p a with
      | true =>
          rw [List.filter_cons_of_pos hp, List.mapM_cons, ih]
          cases hhead : f a with
          | error e => rfl
          | ok b =>
              cases l.mapM f with
              | error e => rfl
              | ok rest =>
                  exact congrArg Except.ok (List.filter_cons_of_pos ((h a b hhead).trans hp)).symm
      | false =>
          obtain ⟨b, hhead⟩ := hok a hp
          have hq : ¬q b = true := by simp [h a b hhead, hp]
          rw [List.filter_cons_of_neg (by simp [hp]), ih, hhead]
          cases l.mapM f with
          | error e => rfl
          | ok rest => exact congrArg Except.ok (List.filter_cons_of_neg hq).symm

end Except

section Substitution

variable {α β ε : Type} (read : List α → Option (β × Nat)) (replace : β → Except ε (List α))

/-- Where `skip` symbols still belong to the last match. `read` finds a match at the front, and how
many symbols it has after its first. -/
def substituteFrom : Nat → List α → Except ε (List α)
  | _, [] => .ok []
  | skip + 1, _ :: text => substituteFrom skip text
  | 0, a :: text =>
      match read (a :: text) with
      | some (found, more) => do
          let replaced ← replace found
          let rest ← substituteFrom more text
          return replaced ++ rest
      | none => do
          let rest ← substituteFrom 0 text
          return a :: rest

def substitute (text : List α) : Except ε (List α) := substituteFrom read replace 0 text

variable {read replace} {l text rest : List α} {a : α} {found : β}

theorem substituteFrom_length (l rest : List α) :
    substituteFrom read replace l.length (l ++ rest) = substitute read replace rest := by
  induction l with
  | nil => rfl
  | cons a l ih => exact ih

theorem substitute_match (h : read (a :: (l ++ rest)) = some (found, l.length)) :
    substitute read replace (a :: (l ++ rest)) = (do
      let replaced ← replace found
      let rest ← substitute read replace rest
      return replaced ++ rest) := by
  rw [substitute, substituteFrom, h]
  dsimp only
  rw [substituteFrom_length]

theorem substitute_plain (h : ∀ a ∈ l, ∀ text, read (a :: text) = none) (rest : List α) :
    substitute read replace (l ++ rest) = (substitute read replace rest).map (l ++ ·) := by
  induction l with
  | nil =>
      rw [List.nil_append]
      cases substitute read replace rest with
      | error e => rfl
      | ok text => rfl
  | cons a l ih =>
      have hrest := ih fun b hb => h b (List.mem_cons_of_mem a hb)
      rw [List.cons_append, substitute, substituteFrom, h a List.mem_cons_self (l ++ rest)]
      change (do
        let rest ← substitute read replace (l ++ rest)
        return a :: rest) = _
      rw [hrest]
      cases substitute read replace rest with
      | error e => rfl
      | ok text => rfl

end Substitution

end LeadPipe.Framework
