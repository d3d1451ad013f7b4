import LeadPipe.Framework.Table
import Mathlib.Order.Defs.Unbundled

/-!
# Rows that go on

A table continues another if no key is handed out twice and every row under an old key is the row
that had the key before, changed in a way the relation `R` allows. Rows may be deleted.
-/

namespace LeadPipe.Framework.Table

variable {ρ : Type} [Keyed ρ]

/-- Some columns are the same. -/
def Same {α : Type} (f : ρ → α) (r r' : ρ) : Prop := f r' = f r

instance Same.isPreorder {α : Type} (f : ρ → α) : IsPreorder ρ (Same f) where
  refl _ := rfl
  trans _ _ _ h h' := h'.trans h

structure Continues (R : ρ → ρ → Prop) (t t' : Table ρ) : Prop where
  next : t.next ≤ t'.next
  rows : ∀ r' ∈ t', key r' < t.next → ∃ r ∈ t, key r = key r' ∧ R r r'

namespace Continues

variable {R : ρ → ρ → Prop} [IsPreorder ρ R] {t t' t'' : Table ρ} {row : ρ}

theorem refl (t : Table ρ) : Continues R t t :=
  ⟨le_rfl, fun r hr _ => ⟨r, hr, rfl, refl_of R r⟩⟩

theorem trans (h : Continues R t t')
    (h' : Continues R t' t'') : Continues R t t'' := by
  refine ⟨h.next.trans h'.next, fun r'' hr'' hkey => ?_⟩
  obtain ⟨r', hr', hkey', hstep'⟩ := h'.rows r'' hr'' (hkey.trans_le h.next)
  rw [← hkey'] at hkey
  obtain ⟨r, hr, hkey'', hstep⟩ := h.rows r' hr' hkey
  exact ⟨r, hr, hkey''.trans hkey', trans_of R hstep hstep'⟩

theorem put (hrow : t.next ≤ key row) : Continues R t (t.put row) := by
  refine ⟨by simp, fun r hr hkey => ?_⟩
  rcases mem_put.mp hr with rfl | ⟨hr, -⟩
  · omega
  · exact ⟨r, hr, rfl, refl_of R r⟩

theorem replace (hrow : ∀ r ∈ t, key r = key row → R r row) :
    Continues R t (t.replace row) := by
  refine ⟨le_rfl, fun r hr _ => ?_⟩
  rcases mem_replace.mp hr with ⟨rfl, old, hold, hkey⟩ | ⟨hr, -⟩
  · exact ⟨old, hold, hkey, hrow old hold hkey⟩
  · exact ⟨r, hr, rfl, refl_of R r⟩

theorem replace_of_mem {old : ρ} (hold : old ∈ t) (hkey : key old = key row)
    (hrow : R old row) : Continues R t (t.replace row) := by
  refine replace fun r hr hr' => ?_
  rw [eq_of_key hr hold (hr'.trans hkey.symm)]
  exact hrow

theorem update {p : ρ → Bool} {change : ρ → ρ}
    (hstep : ∀ r ∈ t, p r = true → R r (change r)) (hchange : ∀ r, key (change r) = key r) :
    Continues R t (t.update p change hchange) := by
  refine ⟨le_rfl, fun r' hr' _ => ?_⟩
  obtain ⟨r, hr, rfl⟩ := mem_update.mp hr'
  by_cases hp : p r = true
  · simp only [hp, if_true]
    exact ⟨r, hr, (hchange r).symm, hstep r hr hp⟩
  · simp only [hp, if_false, Bool.false_eq_true]
    exact ⟨r, hr, rfl, refl_of R r⟩

theorem erase (t : Table ρ) (p : ρ → Bool) : Continues R t (t.erase p) :=
  ⟨le_rfl, fun r hr _ => ⟨r, (mem_erase.mp hr).1, rfl, refl_of R r⟩⟩

theorem reserve (t : Table ρ) (n : Nat) : Continues R t (t.reserve n) :=
  ⟨le_max_left _ _, fun r hr _ => ⟨r, hr, rfl, refl_of R r⟩⟩

end Continues

end LeadPipe.Framework.Table
