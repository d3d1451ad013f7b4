import Mathlib.Data.List.Induction
import Mathlib.Data.List.Pairwise
import Mathlib.Data.List.Sort

/-!
# Selecting the best row

A scan scores the rows of a list, drops the ones without a score and keeps the heaviest score,
the row that comes first among equals. `Selects` says so without a scan; a scan of a part of
the rows agrees with it exactly when the part has the row that wins.
-/

namespace LeadPipe.Framework

variable {α β κ ι : Type} [LinearOrder κ] [LinearOrder ι]

section Selection

variable (score : α → Option β) (weight : β → κ) (place : α → ι)

def Selects (rows : List α) : Option (α × β) → Prop
  | none => ∀ a ∈ rows, score a = none
  | some (a, b) => a ∈ rows ∧ score a = some b ∧ ∀ a' ∈ rows, ∀ b', score a' = some b' →
      weight b' < weight b ∨ (weight b' = weight b ∧ place a ≤ place a')

/-- One turn of the scan: a tie keeps the earlier row. -/
def keepBest (best : Option (α × β)) (a : α) : Option (α × β) :=
  match score a with
  | none => best
  | some b =>
      match best with
      | none => some (a, b)
      | some (_, c) => if weight c < weight b then some (a, b) else best

variable {score weight place}

private theorem Selects.keepBest_snoc {rows : List α} {best : Option (α × β)} {a : α}
    (h : Selects score weight place rows best) (hlast : ∀ a' ∈ rows, place a' < place a) :
    Selects score weight place (rows ++ [a]) (keepBest score weight best a) := by
  have hmem {a' : α} : a' ∈ rows ++ [a] ↔ a' ∈ rows ∨ a' = a := by simp
  unfold keepBest
  cases hscore : score a with
  | none =>
      cases best with
      | none =>
          intro a' ha'
          rcases hmem.mp ha' with hold | rfl
          · exact h a' hold
          · exact hscore
      | some winner =>
          refine ⟨hmem.mpr (.inl h.1), h.2.1, fun a' ha' b' hb' => ?_⟩
          rcases hmem.mp ha' with hold | rfl
          · exact h.2.2 a' hold b' hb'
          · rw [hscore] at hb'
            cases hb'
  | some b =>
      cases best with
      | none =>
          refine ⟨hmem.mpr (.inr rfl), hscore, fun a' ha' b' hb' => ?_⟩
          rcases hmem.mp ha' with hold | rfl
          · rw [h a' hold] at hb'
            cases hb'
          · obtain rfl : b = b' := by simpa [hscore] using hb'
            exact .inr ⟨rfl, le_refl _⟩
      | some winner =>
          obtain ⟨w, c⟩ := winner
          obtain ⟨hw, hwscore, hbest⟩ := h
          by_cases hlt : weight c < weight b
          · simp only [hlt, if_true]
            refine ⟨hmem.mpr (.inr rfl), hscore, fun a' ha' b' hb' => ?_⟩
            rcases hmem.mp ha' with hold | rfl
            · left
              rcases hbest a' hold b' hb' with hless | ⟨hsame, -⟩
              · exact hless.trans hlt
              · rwa [hsame]
            · obtain rfl : b = b' := by simpa [hscore] using hb'
              exact .inr ⟨rfl, le_refl _⟩
          · simp only [hlt, if_false]
            refine ⟨hmem.mpr (.inl hw), hwscore, fun a' ha' b' hb' => ?_⟩
            rcases hmem.mp ha' with hold | rfl
            · exact hbest a' hold b' hb'
            · obtain rfl : b = b' := by simpa [hscore] using hb'
              rcases lt_or_eq_of_le (not_lt.mp hlt) with hless | hsame
              · exact .inl hless
              · exact .inr ⟨hsame, (hlast w hw).le⟩

variable (score weight) in
theorem selects_scan {rows : List α} (hsorted : rows.Pairwise fun a a' => place a < place a') :
    Selects score weight place rows (rows.foldl (keepBest score weight) none) := by
  induction rows using List.reverseRecOn with
  | nil => exact fun a ha => absurd ha List.not_mem_nil
  | append_singleton rows a ih =>
      obtain ⟨hrows, -, hlast⟩ := List.pairwise_append.mp hsorted
      rw [List.foldl_append]
      exact (ih hrows).keepBest_snoc fun a' ha' => hlast a' ha' a (by simp)

private theorem eq_of_place {rows : List α}
    (hsorted : rows.Pairwise fun a a' => place a < place a') {a a' : α} (ha : a ∈ rows)
    (ha' : a' ∈ rows) (hplace : place a = place a') : a = a' := by
  by_contra hne
  have hapart : rows.Pairwise fun a a' => place a ≠ place a' := hsorted.imp fun hlt => hlt.ne
  have hsymm : Std.Symm fun a a' => place a ≠ place a' := ⟨fun _ _ h => h.symm⟩
  exact hapart.forall ha ha' hne hplace

theorem Selects.unique {rows : List α} (hsorted : rows.Pairwise fun a a' => place a < place a')
    {best best' : Option (α × β)} (h : Selects score weight place rows best)
    (h' : Selects score weight place rows best') : best = best' := by
  cases best with
  | none =>
      cases best' with
      | none => rfl
      | some winner =>
          have hnone := h winner.1 h'.1
          rw [h'.2.1] at hnone
          cases hnone
  | some winner =>
      cases best' with
      | none =>
          have hnone := h' winner.1 h.1
          rw [h.2.1] at hnone
          cases hnone
      | some winner' =>
          obtain ⟨ha, hscore, hbest⟩ := h
          obtain ⟨ha', hscore', hbest'⟩ := h'
          have hplace : place winner.1 = place winner'.1 := by
            rcases hbest _ ha' _ hscore' with hlt | ⟨hsame, hle⟩
            · rcases hbest' _ ha _ hscore with hgt | ⟨hsame, -⟩
              · exact absurd hlt hgt.not_gt
              · exact absurd hlt hsame.not_gt
            · rcases hbest' _ ha _ hscore with hgt | ⟨-, hge⟩
              · exact absurd hgt hsame.not_gt
              · exact le_antisymm hle hge
          have hrow := eq_of_place hsorted ha ha' hplace
          rw [hrow] at hscore
          exact congrArg some (Prod.ext hrow (Option.some.inj (hscore.symm.trans hscore')))

theorem Selects.of_part {rows part : List α}
    (hsorted : rows.Pairwise fun a a' => place a < place a')
    (hpart : part.Sublist rows) {best : Option (α × β)}
    (h : Selects score weight place part best) :
    Selects score weight place rows best ↔
      ∀ winner b, Selects score weight place rows (some (winner, b)) → winner ∈ part := by
  constructor
  · intro hall winner b hwins
    obtain rfl := hall.unique hsorted hwins
    exact h.1
  · intro hwinner
    have hscan := selects_scan score weight hsorted
    cases hbest : rows.foldl (keepBest score weight) none with
    | none =>
        rw [hbest] at hscan
        have hnone : Selects score weight place part none := fun a ha => hscan a (hpart.subset ha)
        rwa [h.unique (hsorted.sublist hpart) hnone]
    | some pair =>
        rw [hbest] at hscan
        have hsome : Selects score weight place part (some pair) :=
          ⟨hwinner pair.1 pair.2 hscan, hscan.2.1, fun a ha => hscan.2.2 a (hpart.subset ha)⟩
        rwa [h.unique (hsorted.sublist hpart) hsome]

end Selection

/-- A row is among the first `n` when fewer than `n` rows come before it. -/
theorem mem_take_iff (place : α → ι) {rows : List α}
    (hsorted : rows.Pairwise fun a a' => place a < place a') {a : α} (ha : a ∈ rows) (n : Nat) :
    a ∈ rows.take n ↔ (rows.filter fun a' => place a' < place a).length < n := by
  induction rows generalizing n with
  | nil => exact absurd ha List.not_mem_nil
  | cons r rs ih =>
      obtain ⟨hr, hrs⟩ := List.pairwise_cons.mp hsorted
      cases n with
      | zero => simp
      | succ n =>
          rw [List.take_succ_cons, List.mem_cons]
          by_cases hlt : place r < place a
          · have hmem : a ∈ rs := by
              rcases List.mem_cons.mp ha with rfl | hmem
              · exact absurd hlt (lt_irrefl _)
              · exact hmem
            have hne : a ≠ r := fun heq => absurd hlt (heq ▸ lt_irrefl _)
            rw [List.filter_cons_of_pos (by simpa using hlt), List.length_cons,
              Nat.add_lt_add_iff_right, ← ih hrs hmem n]
            exact ⟨fun h => h.resolve_left hne, .inr⟩
          · obtain rfl : a = r := by
              rcases List.mem_cons.mp ha with heq | hmem
              · exact heq
              · exact absurd (hr a hmem) hlt
            have hnone : rs.filter (fun a' => place a' < place a) = [] := by
              rw [List.filter_eq_nil_iff]
              intro a' ha'
              simpa using (hr a' ha').le
            rw [List.filter_cons_of_neg (by simp), hnone]
            simp

end LeadPipe.Framework
