import LeadPipe.Framework.Table

/-!
# Constraints on tables

Unique columns and references from one table to the keys of another, and what inserting, updating
and deleting rows makes of them.
-/

namespace LeadPipe.Framework.Table

variable {ρ τ : Type} [Keyed ρ] [Keyed τ] {α : Type}

def Has (t : Table ρ) (k : Nat) : Prop := ∃ r ∈ t, key r = k

def Resolves (u : Table τ) (k : Option Nat) : Prop := ∀ i, k = some i → u.Has i

/-- No two rows have the same values of `f`. -/
def Distinct (t : Table ρ) (f : ρ → α) : Prop := ∀ a ∈ t, ∀ b ∈ t, f a = f b → a = b

/-- Every row refers to a row of the other table, or to none. -/
def Refers (t : Table ρ) (f : ρ → Option Nat) (u : Table τ) : Prop := ∀ a ∈ t, u.Resolves (f a)

def Accepts (t : Table ρ) (f : ρ → α) (row : ρ) : Prop :=
  ∀ a ∈ t, key a ≠ key row → f a ≠ f row

variable {t : Table ρ} {u u' : Table τ} {f : ρ → α} {g : ρ → Option Nat} {row : ρ} {k : Nat}

theorem Has.put (h : t.Has k) (row : ρ) : (t.put row).Has k := by
  obtain ⟨r, hr, hk⟩ := h
  by_cases hrow : key r = key row
  · exact ⟨row, mem_put.mpr (.inl rfl), hrow.symm.trans hk⟩
  · exact ⟨r, mem_put.mpr (.inr ⟨hr, hrow⟩), hk⟩

theorem has_put (t : Table ρ) (row : ρ) : (t.put row).Has (key row) :=
  ⟨row, mem_put.mpr (.inl rfl), rfl⟩

theorem Has.replace (h : t.Has k) (row : ρ) : (t.replace row).Has k := by
  obtain ⟨r, hr, hk⟩ := h
  by_cases hrow : key r = key row
  · exact ⟨row, mem_replace.mpr (.inl ⟨rfl, r, hr, hrow⟩), hrow.symm.trans hk⟩
  · exact ⟨r, mem_replace.mpr (.inr ⟨hr, hrow⟩), hk⟩

theorem Has.update (h : t.Has k) {p : ρ → Bool} {change : ρ → ρ}
    (hchange : ∀ r, key (change r) = key r) : (t.update p change hchange).Has k := by
  obtain ⟨r, hr, hk⟩ := h
  refine ⟨_, mem_update.mpr ⟨r, hr, rfl⟩, ?_⟩
  split
  · rw [hchange, hk]
  · exact hk

theorem not_has_put (h : ¬t.Has k) (hk : k < t.next) (hrow : t.next ≤ key row) :
    ¬(t.put row).Has k := by
  rintro ⟨r, hr, rfl⟩
  rcases mem_put.mp hr with rfl | ⟨hr, -⟩
  · omega
  · exact h ⟨r, hr, rfl⟩

theorem not_has_replace (h : ¬t.Has k) (row : ρ) : ¬(t.replace row).Has k := by
  rintro ⟨r, hr, rfl⟩
  rcases mem_replace.mp hr with ⟨rfl, a, ha, hkey⟩ | ⟨hr, -⟩
  · exact h ⟨a, ha, hkey⟩
  · exact h ⟨r, hr, rfl⟩

theorem has_replace_iff : (t.replace row).Has k ↔ t.Has k :=
  ⟨fun h => not_not.mp fun hn => not_has_replace hn row h, fun h => h.replace row⟩

theorem mem_replace_of_mem {old r : ρ} (hold : old ∈ t) (hkey : key old = key row) :
    r ∈ t.replace row ↔ r = row ∨ (r ∈ t ∧ key r ≠ key row) := by
  rw [mem_replace]
  exact or_congr_left (and_iff_left ⟨old, hold, hkey⟩)

theorem mem_update_of_mem {old r : ρ} (hold : old ∈ t) (change : ρ → ρ)
    (hchange : ∀ r, key (change r) = key r) :
    r ∈ t.update (fun a => key a == key old) change hchange ↔
      r = change old ∨ (r ∈ t ∧ key r ≠ key old) := by
  rw [mem_update]
  constructor
  · rintro ⟨a, ha, rfl⟩
    by_cases hk : key a = key old
    · simp [eq_of_key ha hold hk]
    · simp [hk, ha]
  · rintro (rfl | ⟨hr, hne⟩)
    · exact ⟨old, hold, by simp⟩
    · exact ⟨r, hr, by simp [hne]⟩

theorem Distinct.put (h : t.Distinct f) (hrow : t.Accepts f row) : (t.put row).Distinct f := by
  intro a ha b hb hab
  rcases mem_put.mp ha with hnew | ⟨hold, hne⟩ <;> rcases mem_put.mp hb with hnew' | ⟨hold', hne'⟩
  · rw [hnew, hnew']
  · rw [hnew] at hab
    exact absurd hab.symm (hrow b hold' hne')
  · rw [hnew'] at hab
    exact absurd hab (hrow a hold hne)
  · exact h a hold b hold' hab

theorem Distinct.replace (h : t.Distinct f) (hrow : t.Accepts f row) :
    (t.replace row).Distinct f := by
  intro a ha b hb hab
  rcases mem_replace.mp ha with ⟨hnew, -⟩ | ⟨hold, hne⟩ <;>
    rcases mem_replace.mp hb with ⟨hnew', -⟩ | ⟨hold', hne'⟩
  · rw [hnew, hnew']
  · rw [hnew] at hab
    exact absurd hab.symm (hrow b hold' hne')
  · rw [hnew'] at hab
    exact absurd hab (hrow a hold hne)
  · exact h a hold b hold' hab

theorem Distinct.update (h : t.Distinct f) {p : ρ → Bool} {change : ρ → ρ}
    (hchange : ∀ r, key (change r) = key r) (hsame : ∀ r, f (change r) = f r) :
    (t.update p change hchange).Distinct f := by
  intro a ha b hb hab
  obtain ⟨a, ha', rfl⟩ := mem_update.mp ha
  obtain ⟨b, hb', rfl⟩ := mem_update.mp hb
  have hvalue (r : ρ) : f (if p r = true then change r else r) = f r := by
    split
    · exact hsame r
    · rfl
  rw [hvalue, hvalue] at hab
  rw [h a ha' b hb' hab]

theorem Distinct.erase (h : t.Distinct f) (p : ρ → Bool) : (t.erase p).Distinct f :=
  fun a ha b hb => h a (mem_erase.mp ha).1 b (mem_erase.mp hb).1

theorem Distinct.accepts (h : t.Distinct f) {old : ρ} (hold : old ∈ t) (hkey : key old = key row)
    (hsame : f row = f old) : t.Accepts f row := by
  intro a ha hne hvalue
  have heq := h a ha old hold (hvalue.trans hsame)
  exact hne (by rw [heq, hkey])

theorem Refers.into (h : t.Refers g u) (hu : ∀ k, u.Has k → u'.Has k) : t.Refers g u' :=
  fun a ha i hi => hu i (h a ha i hi)

theorem Refers.put (h : t.Refers g u) (hrow : u.Resolves (g row)) : (t.put row).Refers g u := by
  intro a ha
  rcases mem_put.mp ha with rfl | ⟨ha, -⟩
  · exact hrow
  · exact h a ha

theorem Refers.replace (h : t.Refers g u) (hrow : u.Resolves (g row)) :
    (t.replace row).Refers g u := by
  intro a ha
  rcases mem_replace.mp ha with ⟨rfl, -⟩ | ⟨ha, -⟩
  · exact hrow
  · exact h a ha

theorem Refers.update (h : t.Refers g u) {p : ρ → Bool} {change : ρ → ρ}
    (hchange : ∀ r, key (change r) = key r)
    (hsame : ∀ r, g (change r) = g r ∨ u.Resolves (g (change r))) :
    (t.update p change hchange).Refers g u := by
  intro a ha
  obtain ⟨a, ha', rfl⟩ := mem_update.mp ha
  split
  · rcases hsame a with hkept | hnew
    · rw [hkept]
      exact h a ha'
    · exact hnew
  · exact h a ha'

theorem Refers.erase (h : t.Refers g u) (p : ρ → Bool) : (t.erase p).Refers g u :=
  fun a ha => h a (mem_erase.mp ha).1

theorem Refers.cascade (h : t.Refers g u) {p : ρ → Bool} {q : τ → Bool}
    (hp : ∀ a ∈ t, p a = false → ∀ b ∈ u, g a = some (key b) → q b = false) :
    (t.erase p).Refers g (u.erase q) := by
  intro a ha i hi
  obtain ⟨ha, hkept⟩ := mem_erase.mp ha
  obtain ⟨b, hb, rfl⟩ := h a ha i hi
  exact ⟨b, mem_erase.mpr ⟨hb, hp a ha hkept b hb hi⟩, rfl⟩

end LeadPipe.Framework.Table
