import Mathlib.Data.List.Find
import Mathlib.Data.List.Sort
import Mathlib.Data.Prod.Lex

/-!
# Ranking by a key

`ranked` sorts stably by a key in a linear order and `firstWith` picks the first element that
has a value. When no two elements share a key the outcome depends on the elements alone, not
on the order they came in.
-/

namespace LeadPipe.Framework

variable {α β κ κ' : Type} [LinearOrder κ] [LinearOrder κ']

def ranked (rank : α → κ) (l : List α) : List α :=
  l.insertionSort fun a b => rank a ≤ rank b

def firstWith (f : α → Option β) (l : List α) : Option α :=
  l.find? fun a => (f a).isSome

section Ranked

variable {rank : α → κ}

local instance rank_total : Std.Total fun a b : α => rank a ≤ rank b :=
  ⟨fun a b => le_total (rank a) (rank b)⟩

local instance rank_trans : IsTrans α fun a b => rank a ≤ rank b := ⟨fun _ _ _ => le_trans⟩

theorem ranked_perm (rank : α → κ) (l : List α) : (ranked rank l).Perm l :=
  List.perm_insertionSort _ l

@[simp] theorem mem_ranked {l : List α} {a : α} : a ∈ ranked rank l ↔ a ∈ l :=
  (ranked_perm rank l).mem_iff

@[simp] theorem ranked_eq_nil {l : List α} : ranked rank l = [] ↔ l = [] :=
  ⟨fun h => (h ▸ ranked_perm rank l).nil_eq.symm, fun h => by subst h; rfl⟩

theorem ranked_sorted (rank : α → κ) (l : List α) :
    (ranked rank l).Pairwise fun a b => rank a ≤ rank b :=
  List.pairwise_insertionSort _ l

@[simp] theorem ranked_ranked (l : List α) : ranked rank (ranked rank l) = ranked rank l :=
  (ranked_sorted rank l).insertionSort_eq

/-- Elements with distinct keys are ranked the same whatever order they arrive in. -/
theorem ranked_eq_of_perm {l l' : List α} (hp : l.Perm l')
    (hinj : ∀ a ∈ l, ∀ b ∈ l, rank a = rank b → a = b) : ranked rank l = ranked rank l' := by
  have hp' : (ranked rank l).Perm (ranked rank l') :=
    (ranked_perm rank l).trans (hp.trans (ranked_perm rank l').symm)
  refine hp'.eq_of_pairwise ?_ (ranked_sorted rank l) (ranked_sorted rank l')
  intro a b ha hb hab hba
  have ha' : a ∈ l := mem_ranked.mp ha
  have hb' : b ∈ l := hp.mem_iff.mpr (mem_ranked.mp hb)
  exact hinj a ha' b hb' (le_antisymm hab hba)

theorem map_ranked {γ : Type} {rank' : γ → κ'} (g : α → γ) {l : List α}
    (h : ∀ a ∈ l, ∀ b ∈ l, rank a ≤ rank b ↔ rank' (g a) ≤ rank' (g b)) :
    (ranked rank l).map g = ranked rank' (l.map g) :=
  List.map_insertionSort _ _ g l h

theorem mem_of_firstWith {f : α → Option β} {l : List α} {a : α}
    (h : firstWith f l = some a) : a ∈ l ∧ (f a).isSome = true :=
  ⟨List.mem_of_find?_eq_some h, List.find?_some (p := fun a => (f a).isSome) h⟩

theorem firstWith_map {γ : Type} {f : γ → Option β} (g : α → γ) (l : List α) :
    firstWith f (l.map g) = (firstWith (fun a => f (g a)) l).map g := by
  simp only [firstWith, List.find?_map]; rfl

private theorem firstWith_orderedInsert {f : α → Option β} (x : α) (l : List α) :
    firstWith f (l.orderedInsert (fun a b => rank a ≤ rank b) x) = some x ∨
      firstWith f (l.orderedInsert (fun a b => rank a ≤ rank b) x) = firstWith f l := by
  induction l with
  | nil =>
      cases hx : f x <;> simp [firstWith, hx]
  | cons a l ih =>
      simp only [List.orderedInsert]
      split
      · cases hx : f x <;> simp [firstWith, hx]
      · cases ha : f a with
        | none => simpa [firstWith, ha] using ih
        | some b => simp [firstWith, ha]

theorem firstWith_ranked_cons {f : α → Option β} (x : α) (l : List α) :
    firstWith f (ranked rank (x :: l)) = some x ∨
      firstWith f (ranked rank (x :: l)) = firstWith f (ranked rank l) :=
  firstWith_orderedInsert x (ranked rank l)

end Ranked

/-- The first entry is the first value exactly when some value comes before each null. -/
theorem findSome_join_iff {R : α → α → Prop} (hasymm : ∀ a b, R a b → ¬R b a)
    {g : α → Option (Option β)} {l : List α} (h : l.Pairwise R) :
    (l.findSome? g).join = (l.findSome? fun a => (g a).join) ↔
      ∀ a ∈ l, g a = some none → (∃ b ∈ l, (g b).join.isSome) →
        ∃ b ∈ l, (g b).join.isSome ∧ R b a := by
  induction l with
  | nil => simp
  | cons c l ih =>
      obtain ⟨hc, hl⟩ := List.pairwise_cons.mp h
      cases hg : g c with
      | none => simpa [hg] using ih hl
      | some v =>
          cases v with
          | some v =>
              simp only [List.findSome?_cons, hg, Option.join_some, true_iff]
              intro a ha hnull _
              rcases List.mem_cons.mp ha with rfl | ha
              · simp [hg] at hnull
              · exact ⟨c, List.mem_cons_self, by simp [hg], hc a ha⟩
          | none =>
              have hnone : (l.findSome? fun a => (g a).join) = none ↔ ∀ b ∈ l, (g b).join = none :=
                List.findSome?_eq_none_iff
              simp only [List.findSome?_cons, hg, Option.join_some]
              rw [eq_comm, hnone]
              constructor
              · intro hall a _ _ hex
                obtain ⟨b, hb, hsome⟩ := hex
                rcases List.mem_cons.mp hb with rfl | hb
                · simp [hg] at hsome
                · simp [hall b hb] at hsome
              · intro hahead b hb
                by_contra hsome
                have hsome' : (g b).join.isSome := Option.isSome_iff_ne_none.mpr hsome
                obtain ⟨d, hd, hdsome, hR⟩ :=
                  hahead c List.mem_cons_self hg ⟨b, List.mem_cons_of_mem c hb, hsome'⟩
                rcases List.mem_cons.mp hd with rfl | hd
                · simp [hg] at hdsome
                · exact hasymm c d (hc d hd) hR

end LeadPipe.Framework
