/-!
# Tokens

The nonempty pieces between separators. Everything about them follows from what one separator does,
`tokens_append_cons`.
-/

namespace LeadPipe.Framework

variable {α : Type} {sep : α → Bool} {l r w : List α} {c : α}

def tokens (sep : α → Bool) (l : List α) : List (List α) :=
  (l.splitOnP sep).filter fun w => !w.isEmpty

/-- What may be read back: a nonempty list without a separator. -/
def IsToken (sep : α → Bool) (w : List α) : Prop := w ≠ [] ∧ ∀ c ∈ w, sep c = false

theorem not_sep_of_mem_splitOnP {piece : List α} (h : piece ∈ l.splitOnP sep) :
    ∀ c ∈ piece, sep c = false := by
  induction l generalizing piece with
  | nil =>
      obtain rfl : piece = [] := by simpa using h
      simp
  | cons a l ih =>
      rw [List.splitOnP_cons_eq_if_modifyHead] at h
      by_cases ha : sep a = true
      · rw [if_pos ha, List.mem_cons] at h
        rcases h with rfl | hrest
        · simp
        · exact ih hrest
      · rw [if_neg ha] at h
        cases hpieces : l.splitOnP sep with
        | nil => exact absurd hpieces (List.splitOnP_ne_nil sep l)
        | cons first rest =>
            rw [hpieces, List.modifyHead_cons, List.mem_cons] at h
            rcases h with rfl | hrest
            · intro c hc
              rcases List.mem_cons.mp hc with rfl | hfirst
              · simpa using ha
              · exact ih (hpieces ▸ List.mem_cons_self) c hfirst
            · exact ih (hpieces ▸ List.mem_cons_of_mem _ hrest)

theorem isToken_of_mem (h : w ∈ tokens sep l) : IsToken sep w := by
  obtain ⟨hpiece, hne⟩ := List.mem_filter.mp h
  exact ⟨by simpa using hne, not_sep_of_mem_splitOnP hpiece⟩

@[simp] theorem tokens_nil : tokens sep [] = [] := rfl

theorem tokens_append_cons (hc : sep c = true) (l r : List α) :
    tokens sep (l ++ c :: r) = tokens sep l ++ tokens sep r := by
  unfold tokens
  rw [List.splitOnP_append_cons l r hc, List.filter_append]

theorem IsToken.tokens (h : IsToken sep w) : tokens sep w = [w] := by
  unfold Framework.tokens
  rw [List.splitOnP_eq_singleton h.2]
  simp [h.1]

theorem tokens_append {between : List α} (hne : between ≠ []) (hsep : ∀ c ∈ between, sep c = true)
    (l r : List α) : tokens sep (l ++ between ++ r) = tokens sep l ++ tokens sep r := by
  induction between generalizing l with
  | nil => exact absurd rfl hne
  | cons c rest ih =>
      have hc : sep c = true := hsep c List.mem_cons_self
      rw [List.append_assoc, List.cons_append, tokens_append_cons hc]
      cases rest with
      | nil => rfl
      | cons d rest =>
          have hseps : ∀ e ∈ d :: rest, sep e = true := fun e he =>
            hsep e (List.mem_cons_of_mem c he)
          have hrest := ih (List.cons_ne_nil d rest) hseps []
          rw [List.nil_append] at hrest
          rw [hrest, tokens_nil, List.nil_append]

theorem tokens_intersperse (hc : sep c = true) {ws : List (List α)}
    (hws : ∀ w ∈ ws, IsToken sep w) :
    tokens sep (ws.intersperse [c]).flatten = ws := by
  induction ws with
  | nil => rfl
  | cons w ws ih =>
      have hw : tokens sep w = [w] := (hws w List.mem_cons_self).tokens
      cases ws with
      | nil => simpa using hw
      | cons v ws =>
          have hrest := ih fun u hu => hws u (List.mem_cons_of_mem w hu)
          have hflat : ((w :: v :: ws).intersperse [c]).flatten =
              w ++ c :: ((v :: ws).intersperse [c]).flatten := by simp
          rw [hflat, tokens_append_cons hc, hw, hrest]
          rfl

end LeadPipe.Framework
