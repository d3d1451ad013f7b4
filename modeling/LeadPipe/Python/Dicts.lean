import LeadPipe.Python.Text

/-!
# Dictionaries

What a lookup finds after each operation.
-/

namespace LeadPipe

namespace Dict

variable {α : Type}

/-- A dictionary has every key once. -/
def Keyed (d : Dict α) : Prop := (d.map Prod.fst).Nodup

instance (d : Dict α) : Decidable d.Keyed := inferInstanceAs (Decidable (List.Nodup _))

theorem get_cons (p : Text × α) (d : Dict α) (k : Text) :
    Dict.get (p :: d) k = if p.1 = k then some p.2 else d.get k := by
  unfold Dict.get
  by_cases h : p.1 = k <;> simp [h]

theorem get_append (d e : Dict α) (k : Text) : Dict.get (d ++ e) k = (d.get k).or (e.get k) := by
  induction d with
  | nil => rfl
  | cons p d ih =>
      rw [List.cons_append, get_cons, get_cons, ih]
      by_cases h : p.1 = k <;> simp [h]

theorem get_eq_none {d : Dict α} {k : Text} : d.get k = none ↔ k ∉ d.map Prod.fst := by
  induction d with
  | nil => simp [Dict.get]
  | cons p d ih =>
      rw [get_cons, List.map_cons, List.mem_cons, not_or, ← ih]
      by_cases h : p.1 = k
      · simp [h]
      · simp [h, Ne.symm h]

theorem get_pass {k k' : Text} (h : k' ≠ k) (d e : Dict α) (v : α) :
    Dict.get (d ++ (k', v) :: e) k = Dict.get (d ++ e) k := by
  rw [get_append, get_append, get_cons, if_neg h]

theorem get_found {k : Text} {d : Dict α} (h : k ∉ d.map Prod.fst) (v : α) (e : Dict α) :
    Dict.get (d ++ (k, v) :: e) k = some v := by
  rw [get_append, get_eq_none.mpr h, get_cons, if_pos rfl]
  rfl

private theorem get_replace (d : Dict α) (k k' : Text) (v : α) :
    Dict.get (d.map fun p => if p.1 == k then (k, v) else p) k' =
      if k = k' then (d.get k).map fun _ => v else d.get k' := by
  induction d with
  | nil => simp [Dict.get]
  | cons p d ih =>
      rw [List.map_cons, get_cons, get_cons, get_cons, ih]
      by_cases hp : p.1 = k
      · by_cases hk : k = k' <;> simp [hp, hk]
      · by_cases hk : k = k'
        · subst hk
          simp [hp]
        · simp [hp, hk]

theorem get_set (d : Dict α) (k k' : Text) (v : α) :
    (d.set k v).get k' = if k = k' then some v else d.get k' := by
  unfold Dict.set
  by_cases hany : (d.any fun p => p.1 == k) = true
  · have hsome : (d.get k).map (fun _ => v) = some v := by
      rw [List.any_eq_true] at hany
      obtain ⟨p, hp, hk⟩ := hany
      cases hget : d.get k with
      | none => exact absurd (List.mem_map.mpr ⟨p, hp, eq_of_beq hk⟩) (get_eq_none.mp hget)
      | some _ => rfl
    rw [if_pos hany, get_replace, hsome]
  · rw [if_neg hany, get_append, get_cons]
    by_cases hk : k = k'
    · subst hk
      have hnone : d.get k = none := by
        rw [get_eq_none, List.mem_map]
        rintro ⟨p, hp, rfl⟩
        exact hany (List.any_eq_true.mpr ⟨p, hp, beq_self_eq_true _⟩)
      simp [hnone]
    · simp [hk, Dict.get]

theorem get_update (d : Dict α) {e : Dict α} (he : e.Keyed) (k : Text) :
    (d.update e).get k = (e.get k).or (d.get k) := by
  induction e generalizing d with
  | nil => rfl
  | cons p e ih =>
      obtain ⟨hp, he⟩ := List.nodup_cons.mp he
      change ((d.set p.1 p.2).update e).get k = _
      rw [ih _ he, get_set, get_cons]
      by_cases h : p.1 = k
      · subst h
        simp [get_eq_none.mpr hp]
      · simp [h]

theorem get_filterMap {ι : Type} [DecidableEq ι] {name : ι → Text}
    (hname : Function.Injective name) (g : ι → Option α) (is : List ι) (i : ι) :
    Dict.get (is.filterMap fun j => (g j).map fun v => (name j, v)) (name i) =
      if i ∈ is then g i else none := by
  induction is with
  | nil => rfl
  | cons j is ih =>
      have hne : j ≠ i → name j ≠ name i := fun h => hname.ne h
      cases hj : g j with
      | none =>
          rw [List.filterMap_cons_none (by rw [hj]; rfl), ih]
          by_cases h : i = j
          · subst h
            simp [hj]
          · simp [h]
      | some v =>
          rw [List.filterMap_cons_some (by rw [hj]; rfl), get_cons, ih]
          by_cases h : i = j
          · subst h
            simp [hj]
          · simp [h, hne (Ne.symm h)]

theorem get_filter (keep : Text → Bool) {k : Text} (hk : keep k = true) (d : Dict α) :
    Dict.get (d.filter fun p => keep p.1) k = d.get k := by
  induction d with
  | nil => rfl
  | cons p d ih =>
      rw [get_cons, List.filter_cons]
      by_cases hp : keep p.1 = true
      · rw [if_pos hp, get_cons, ih]
      · have hne : p.1 ≠ k := fun h => hp (h ▸ hk)
        rw [if_neg hp, ih, if_neg hne]

theorem get_of_mem {d : Dict α} (hd : d.Keyed) {k : Text} {v : α} (h : (k, v) ∈ d) :
    d.get k = some v := by
  induction d with
  | nil => cases h
  | cons p d ih =>
      obtain ⟨hp, hd⟩ := List.nodup_cons.mp hd
      rw [get_cons]
      rcases List.mem_cons.mp h with rfl | hmem
      · rw [if_pos rfl]
      · have hne : p.1 ≠ k := fun heq => hp (heq ▸ List.mem_map_of_mem hmem)
        rw [if_neg hne, ih hd hmem]

end Dict

end LeadPipe
