import Mathlib.Algebra.GroupWithZero.Nat
import Mathlib.Data.List.Sort

/-!
# Keyed tables

A table is a list of rows in strictly increasing key order together with the next free key.
Both facts are fields, so every operation below returns a table whose keys are unique and
whose fresh key is fresh. A sum over the rows changes with the row that is written.
-/

namespace LeadPipe.Framework

/-- Rows that carry the key their table is ordered by. -/
class Keyed (ρ : Type) where
  key : ρ → Nat

export Keyed (key)

structure Table (ρ : Type) [Keyed ρ] where
  rows : List ρ
  next : Nat
  sorted : rows.Pairwise fun a b => key a < key b
  bounded : ∀ r ∈ rows, key r < next

namespace Table

variable {ρ : Type} [Keyed ρ]

instance : Membership ρ (Table ρ) := ⟨fun t r => r ∈ t.rows⟩

theorem mem_def {t : Table ρ} {r : ρ} : r ∈ t ↔ r ∈ t.rows := Iff.rfl

instance (t : Table ρ) (p : ρ → Prop) [DecidablePred p] : Decidable (∃ r ∈ t, p r) :=
  inferInstanceAs (Decidable (∃ r ∈ t.rows, p r))

instance (t : Table ρ) (p : ρ → Prop) [DecidablePred p] : Decidable (∀ r ∈ t, p r) :=
  inferInstanceAs (Decidable (∀ r ∈ t.rows, p r))

/-- Keys start at one, as a database sequence does. -/
def empty : Table ρ := ⟨[], 1, .nil, by simp⟩

@[simp] theorem not_mem_empty (r : ρ) : r ∉ (empty : Table ρ) := by
  simp [mem_def, empty]

def find? (t : Table ρ) (k : Nat) : Option ρ := t.rows.find? fun r => key r == k

def select (t : Table ρ) (p : ρ → Bool) : List ρ := t.rows.filter p

@[simp] theorem mem_select {t : Table ρ} {p : ρ → Bool} {r : ρ} :
    r ∈ t.select p ↔ r ∈ t ∧ p r = true := by
  simp [select, mem_def]

theorem select_sorted (t : Table ρ) (p : ρ → Bool) :
    (t.select p).Pairwise fun a b => key a < key b :=
  t.sorted.filter p

theorem key_lt_next {t : Table ρ} {r : ρ} (h : r ∈ t) : key r < t.next := t.bounded r h

private theorem sorted_eq_of_key {rows : List ρ}
    (hs : rows.Pairwise fun a b => key a < key b) {a b : ρ} (ha : a ∈ rows) (hb : b ∈ rows)
    (hk : key a = key b) : a = b := by
  induction rows with
  | nil => simp at ha
  | cons r rs ih =>
      obtain ⟨hr, hrs⟩ := List.pairwise_cons.mp hs
      rcases List.mem_cons.mp ha with rfl | ha'
      · rcases List.mem_cons.mp hb with rfl | hb'
        · rfl
        · have := hr b hb'
          omega
      · rcases List.mem_cons.mp hb with rfl | hb'
        · have := hr a ha'
          omega
        · exact ih hrs ha' hb'

theorem eq_of_key {t : Table ρ} {a b : ρ} (ha : a ∈ t) (hb : b ∈ t) (hk : key a = key b) :
    a = b :=
  sorted_eq_of_key t.sorted ha hb hk

theorem find?_eq_some {t : Table ρ} {k : Nat} {r : ρ} :
    t.find? k = some r ↔ r ∈ t ∧ key r = k := by
  constructor
  · intro h
    exact ⟨List.mem_of_find?_eq_some h, by simpa using List.find?_some h⟩
  · rintro ⟨hr, rfl⟩
    cases hf : t.find? (key r) with
    | none =>
        have := List.find?_eq_none.mp hf r hr
        simp at this
    | some r' =>
        have hk : key r' = key r := by simpa using List.find?_some hf
        rw [eq_of_key (List.mem_of_find?_eq_some hf) hr hk]

theorem find?_eq_none {t : Table ρ} {k : Nat} : t.find? k = none ↔ ∀ r ∈ t, key r ≠ k := by
  simp [find?, mem_def]

private theorem rows_eq_of_mem_iff {xs ys : List ρ}
    (hx : xs.Pairwise fun a b => key a < key b) (hy : ys.Pairwise fun a b => key a < key b)
    (h : ∀ r, r ∈ xs ↔ r ∈ ys) : xs = ys := by
  have nodup {l : List ρ} (hl : l.Pairwise fun a b => key a < key b) : l.Nodup :=
    hl.imp fun hlt he => by simp [he] at hlt
  have hp : xs.Perm ys := (List.perm_ext_iff_of_nodup (nodup hx) (nodup hy)).mpr h
  exact hp.eq_of_pairwise (fun _ _ _ _ h₁ h₂ => absurd h₁ (by omega)) hx hy

theorem select_congr {t u : Table ρ} {p q : ρ → Bool}
    (h : ∀ r, (r ∈ t ∧ p r = true) ↔ (r ∈ u ∧ q r = true)) : t.select p = u.select q :=
  rows_eq_of_mem_iff (t.select_sorted p) (u.select_sorted q) (by simpa using h)

theorem select_snoc {t u : Table ρ} {row : ρ} (h : ∀ r, r ∈ u ↔ r = row ∨ r ∈ t)
    (hlast : ∀ r ∈ t, key r < key row) (p : ρ → Bool) :
    u.select p = t.select p ++ if p row then [row] else [] := by
  refine rows_eq_of_mem_iff (u.select_sorted p) ?_ fun r => ?_
  · refine List.pairwise_append.mpr ⟨t.select_sorted p, ?_, fun a ha b hb => ?_⟩
    · split <;> simp
    · have hb' : b = row := by
        split at hb <;> simp_all
      rw [hb']
      exact hlast a (mem_select.mp ha).1
  · rw [mem_select, List.mem_append, mem_select, h]
    by_cases hp : p row = true
    · simp only [hp, if_true, List.mem_singleton]
      grind
    · simp only [hp, if_false, Bool.false_eq_true, List.not_mem_nil, or_false]
      grind

private theorem getElem_key_le {rows : List ρ} (hs : rows.Pairwise fun a b => key a < key b)
    {i j : Nat} (hi : i < rows.length) (hj : j < rows.length) :
    key rows[i] ≤ key rows[j] ↔ i ≤ j := by
  have hlt := List.pairwise_iff_getElem.mp hs
  rcases Nat.lt_trichotomy i j with h | rfl | h
  · have := hlt i j hi hj h
    omega
  · simp
  · have := hlt j i hj hi h
    omega

theorem select_aligned {γ : Type} {t u : Table ρ} {p q : ρ → Bool} {f : ρ → γ}
    (hsame : (t.select p).map f = (u.select q).map f) (hnodup : ((t.select p).map f).Nodup)
    {a b a' b' : ρ} (ha : a ∈ t.select p) (hb : b ∈ t.select p) (ha' : a' ∈ u.select q)
    (hb' : b' ∈ u.select q) (hfa : f a = f a') (hfb : f b = f b') :
    key a ≤ key b ↔ key a' ≤ key b' := by
  have hlength : (t.select p).length = (u.select q).length := by
    simpa using congrArg List.length hsame
  have hplace {r r' : ρ} (hr : r ∈ t.select p) (hr' : r' ∈ u.select q) (hf : f r = f r') :
      ∃ i, ∃ (hi : i < (t.select p).length) (hi' : i < (u.select q).length),
        (t.select p)[i] = r ∧ (u.select q)[i] = r' := by
    obtain ⟨i, hi, hri⟩ := List.getElem_of_mem hr
    obtain ⟨j, hj, hrj⟩ := List.getElem_of_mem hr'
    have hi₁ : i < ((t.select p).map f).length := by simpa using hi
    have hj₁ : j < ((t.select p).map f).length := by simpa [hlength] using hj
    have hj₂ : j < ((u.select q).map f).length := by simpa using hj
    have hij : ((t.select p).map f)[i] = ((t.select p).map f)[j] := by
      calc ((t.select p).map f)[i] = f r := by rw [List.getElem_map, hri]
        _ = f r' := hf
        _ = ((u.select q).map f)[j] := by rw [List.getElem_map, hrj]
        _ = ((t.select p).map f)[j] := by simp only [hsame]
    obtain rfl : i = j := hnodup.getElem_inj_iff.mp hij
    exact ⟨i, hi, hj, hri, hrj⟩
  obtain ⟨i, hi, hi', hai, hai'⟩ := hplace ha ha' hfa
  obtain ⟨j, hj, hj', hbj, hbj'⟩ := hplace hb hb' hfb
  rw [← hai, ← hbj, ← hai', ← hbj', getElem_key_le (t.select_sorted p) hi hj,
    getElem_key_le (u.select_sorted q) hi' hj']

private def putRow (row : ρ) : List ρ → List ρ
  | [] => [row]
  | r :: rs =>
      if key row < key r then row :: r :: rs
      else if key row = key r then row :: rs
      else r :: putRow row rs

private theorem mem_putRow {row r : ρ} {rows : List ρ}
    (hs : rows.Pairwise fun a b => key a < key b) :
    r ∈ putRow row rows ↔ r = row ∨ (r ∈ rows ∧ key r ≠ key row) := by
  induction rows with
  | nil => simp [putRow]
  | cons a as ih =>
      obtain ⟨ha, has⟩ := List.pairwise_cons.mp hs
      simp only [putRow]
      split
      · rename_i hlt
        have hne : ∀ b ∈ a :: as, key b ≠ key row := by
          intro b hb
          rcases List.mem_cons.mp hb with rfl | hb
          · omega
          · have := ha b hb
            omega
        simp only [List.mem_cons] at hne ⊢
        grind
      · split
        · rename_i hlt heq
          have hne : ∀ b ∈ as, key b ≠ key row := by
            intro b hb
            have := ha b hb
            omega
          simp only [List.mem_cons]
          grind
        · rename_i hlt hne
          simp only [List.mem_cons, ih has]
          grind

private theorem putRow_sorted {row : ρ} {rows : List ρ}
    (hs : rows.Pairwise fun a b => key a < key b) :
    (putRow row rows).Pairwise fun a b => key a < key b := by
  induction rows with
  | nil => simp [putRow]
  | cons a as ih =>
      obtain ⟨ha, has⟩ := List.pairwise_cons.mp hs
      simp only [putRow]
      split
      · rename_i hlt
        refine List.pairwise_cons.mpr ⟨?_, hs⟩
        intro b hb
        rcases List.mem_cons.mp hb with rfl | hb
        · exact hlt
        · exact hlt.trans (ha b hb)
      · split
        · rename_i hlt heq
          exact List.pairwise_cons.mpr ⟨fun b hb => by rw [heq]; exact ha b hb, has⟩
        · rename_i hlt hne
          refine List.pairwise_cons.mpr ⟨?_, ih has⟩
          intro b hb
          rcases (mem_putRow has).mp hb with rfl | ⟨hb, -⟩
          · omega
          · exact ha b hb

def put (t : Table ρ) (row : ρ) : Table ρ where
  rows := putRow row t.rows
  next := max t.next (key row + 1)
  sorted := putRow_sorted t.sorted
  bounded := by
    intro r hr
    rcases (mem_putRow t.sorted).mp hr with rfl | ⟨hr, -⟩
    · omega
    · have := t.bounded r hr
      omega

theorem mem_put {t : Table ρ} {row r : ρ} :
    r ∈ t.put row ↔ r = row ∨ (r ∈ t ∧ key r ≠ key row) :=
  mem_putRow t.sorted

@[simp] theorem next_put (t : Table ρ) (row : ρ) :
    (t.put row).next = max t.next (key row + 1) := rfl

theorem find?_put (t : Table ρ) (row : ρ) (k : Nat) :
    (t.put row).find? k = if k = key row then some row else t.find? k := by
  split
  · rename_i h
    exact find?_eq_some.mpr ⟨mem_put.mpr (.inl rfl), h.symm⟩
  · rename_i h
    cases hf : t.find? k with
    | none =>
        refine find?_eq_none.mpr fun r hr => ?_
        rcases mem_put.mp hr with rfl | ⟨hr, -⟩
        · exact Ne.symm h
        · exact find?_eq_none.mp hf r hr
    | some r =>
        obtain ⟨hr, rfl⟩ := find?_eq_some.mp hf
        exact find?_eq_some.mpr ⟨mem_put.mpr (.inr ⟨hr, h⟩), rfl⟩

/-- An update statement: `f` rewrites the rows that satisfy `p` and leaves their keys. -/
def update (t : Table ρ) (p : ρ → Bool) (f : ρ → ρ) (hf : ∀ r, key (f r) = key r) :
    Table ρ where
  rows := t.rows.map fun r => if p r then f r else r
  next := t.next
  sorted := by
    refine List.pairwise_map.mpr (t.sorted.imp ?_)
    intro a b hab
    split <;> split <;> simpa [hf] using hab
  bounded := by
    intro r hr
    obtain ⟨a, ha, rfl⟩ := List.mem_map.mp hr
    have := t.bounded a ha
    split <;> simpa [hf] using this

theorem mem_update {t : Table ρ} {p : ρ → Bool} {f : ρ → ρ} {hf : ∀ r, key (f r) = key r}
    {r : ρ} : r ∈ t.update p f hf ↔ ∃ a ∈ t, (if p a then f a else a) = r :=
  List.mem_map

theorem find?_update (t : Table ρ) (p : ρ → Bool) (f : ρ → ρ) (hf : ∀ r, key (f r) = key r)
    (k : Nat) :
    (t.update p f hf).find? k = (t.find? k).map fun r => if p r then f r else r := by
  have hk : ∀ r, key (if p r then f r else r) = key r := by
    intro r
    split <;> simp [hf]
  cases h : t.find? k with
  | none =>
      refine find?_eq_none.mpr fun r hr => ?_
      obtain ⟨a, ha, rfl⟩ := mem_update.mp hr
      rw [hk]
      exact find?_eq_none.mp h a ha
  | some a =>
      obtain ⟨ha, rfl⟩ := find?_eq_some.mp h
      exact find?_eq_some.mpr ⟨mem_update.mpr ⟨a, ha, rfl⟩, hk a⟩

/-- Overwrites the row under a key; without such a row nothing happens. -/
def replace (t : Table ρ) (row : ρ) : Table ρ where
  rows := t.rows.map fun r => if key r = key row then row else r
  next := t.next
  sorted := by
    refine List.pairwise_map.mpr (t.sorted.imp ?_)
    intro a b hab
    split <;> split <;> omega
  bounded := by
    intro r hr
    obtain ⟨a, ha, rfl⟩ := List.mem_map.mp hr
    have := t.bounded a ha
    split <;> omega

theorem mem_replace {t : Table ρ} {row r : ρ} :
    r ∈ t.replace row ↔
      (r = row ∧ ∃ a ∈ t, key a = key row) ∨ (r ∈ t ∧ key r ≠ key row) := by
  constructor
  · intro h
    obtain ⟨a, ha, rfl⟩ := List.mem_map.mp h
    split
    · rename_i hk
      exact .inl ⟨rfl, a, ha, hk⟩
    · rename_i hk
      exact .inr ⟨ha, hk⟩
  · rintro (⟨rfl, a, ha, hk⟩ | ⟨hr, hk⟩)
    · exact List.mem_map.mpr ⟨a, ha, by simp [hk]⟩
    · exact List.mem_map.mpr ⟨r, hr, by simp [hk]⟩

@[simp] theorem next_replace (t : Table ρ) (row : ρ) : (t.replace row).next = t.next := rfl

def erase (t : Table ρ) (p : ρ → Bool) : Table ρ where
  rows := t.rows.filter fun r => !p r
  next := t.next
  sorted := t.sorted.filter _
  bounded := fun r hr => t.bounded r (List.mem_of_mem_filter hr)

@[simp] theorem mem_erase {t : Table ρ} {p : ρ → Bool} {r : ρ} :
    r ∈ t.erase p ↔ r ∈ t ∧ p r = false := by
  simp [mem_def, erase]

/-- Hands out keys up to `n` without storing a row, as a sequence does for a transaction that has
not committed. -/
def reserve (t : Table ρ) (n : Nat) : Table ρ where
  rows := t.rows
  next := max t.next n
  sorted := t.sorted
  bounded := fun r hr => (t.bounded r hr).trans_le (le_max_left _ _)

@[simp] theorem mem_reserve {t : Table ρ} {n : Nat} {r : ρ} : r ∈ t.reserve n ↔ r ∈ t := Iff.rfl

@[simp] theorem next_reserve (t : Table ρ) (n : Nat) : (t.reserve n).next = max t.next n := rfl

@[simp] theorem find?_reserve (t : Table ρ) (n k : Nat) : (t.reserve n).find? k = t.find? k := rfl

/-- A row whose key was handed out before takes its place as if it came at once. -/
theorem put_reserve (t : Table ρ) (row : ρ) :
    (t.reserve (key row + 1)).put row = t.put row := by
  have hnext : ((t.reserve (key row + 1)).put row).next = (t.put row).next := by simp
  have hrows : ((t.reserve (key row + 1)).put row).rows = (t.put row).rows := rfl
  cases ht : t.put row
  cases hr : (t.reserve (key row + 1)).put row
  simp_all

section Total

variable {t : Table ρ} {row : ρ}

def total (f : ρ → Nat) (t : Table ρ) : Nat := (t.rows.map f).sum

end Total

end Table

end LeadPipe.Framework
