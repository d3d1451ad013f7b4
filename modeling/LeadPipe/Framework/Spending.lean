import LeadPipe.Framework.Dialogue

/-!
# What the runs of a program cost

Every call has a price. `Spends cost change m n` says that a run of `m`, however it is answered, can
be paid from `n`, and that `change out` of it is left when the run ends with `out`. What is left of
one program is what the next one starts from.
-/

namespace LeadPipe.Framework.Dialogue

variable {C : Type} {A : C → Type} {ε α β : Type}

def spent (cost : C → Nat) : List (Event A) → Nat
  | [] => 0
  | e :: trace => cost e.call + spent cost trace

def Spends (cost : C → Nat) (change : Except ε α → Nat) : Dialogue A ε α → Nat → Prop
  | pure a, n => change (.ok a) ≤ n
  | raise e, n => change (.error e) ≤ n
  | call c next, n => cost c ≤ n ∧ ∀ a, Spends cost change (next a) (n - cost c)

/-- The program can be paid from `n`. -/
def AtMost (cost : C → Nat) (n : Nat) (m : Dialogue A ε α) : Prop := Spends cost (fun _ => 0) m n

namespace Spends

variable {cost : C → Nat} {change change' : Except ε α → Nat} {m : Dialogue A ε α} {n n' k : Nat}

theorem run (hm : Spends cost change m n) {trace : List (Event A)} {out : Except ε α}
    (hrun : m.Run trace out) : spent cost trace + change out ≤ n := by
  induction m generalizing n trace with
  | pure a =>
      obtain ⟨rfl, rfl⟩ := hrun
      have hleft : change _ ≤ n := hm
      simpa [spent] using hleft
  | raise e =>
      obtain ⟨rfl, rfl⟩ := hrun
      have hleft : change _ ≤ n := hm
      simpa [spent] using hleft
  | call c next ih =>
      obtain ⟨a, rest, rfl, hrest⟩ := hrun
      have htail := ih a (hm.2 a) hrest
      have hprice := hm.1
      rw [spent]
      dsimp only
      omega

theorem mono (hm : Spends cost change m n) (hn : n ≤ n')
    (hchange : ∀ out, change' out ≤ change out) :
    Spends cost change' m n' := by
  induction m generalizing n n' with
  | pure a => exact Nat.le_trans (hchange _) (Nat.le_trans hm hn)
  | raise e => exact Nat.le_trans (hchange _) (Nat.le_trans hm hn)
  | call c next ih =>
      exact ⟨Nat.le_trans hm.1 hn, fun a => ih a (hm.2 a) (Nat.sub_le_sub_right hn _)⟩

theorem frame (hm : Spends cost change m n) (k : Nat) :
    Spends cost (fun out => change out + k) m (n + k) := by
  induction m generalizing n with
  | pure a => exact Nat.add_le_add_right hm k
  | raise e => exact Nat.add_le_add_right hm k
  | call c next ih =>
      refine ⟨Nat.le_trans hm.1 (Nat.le_add_right n k), fun a => ?_⟩
      rw [Nat.sub_add_comm hm.1]
      exact ih a (hm.2 a)

theorem bind {f : α → Dialogue A ε β} {rest : Except ε β → Nat} (hm : Spends cost change m n)
    (hf : ∀ a, Spends cost rest (f a) (change (.ok a)))
    (he : ∀ e, rest (.error e) ≤ change (.error e)) : Spends cost rest (m >>= f) n := by
  change Spends cost rest (Dialogue.bind m f) n
  induction m generalizing n with
  | pure a => exact (hf a).mono hm fun _ => Nat.le_refl _
  | raise e => exact Nat.le_trans (he e) hm
  | call c next ih => exact ⟨hm.1, fun a => ih a (hm.2 a)⟩

theorem attempt {change : Except ε α → Nat} (hm : Spends cost change m n)
    {rest : Except ε (Except ε α) → Nat} (hrest : ∀ out, rest (.ok out) ≤ change out) :
    Spends cost rest (Dialogue.attempt m) n := by
  induction m generalizing n with
  | pure a => exact Nat.le_trans (hrest _) hm
  | raise e => exact Nat.le_trans (hrest _) hm
  | call c next ih => exact ⟨hm.1, fun a => ih a (hm.2 a)⟩

end Spends

namespace AtMost

variable {cost : C → Nat} {m : Dialogue A ε α} {n n' k : Nat}

theorem run (hm : AtMost cost n m) {trace : List (Event A)} {out : Except ε α}
    (hrun : m.Run trace out) : spent cost trace ≤ n := Spends.run hm hrun

theorem mono (hm : AtMost cost n m) (hn : n ≤ n') : AtMost cost n' m :=
  Spends.mono hm hn fun _ => Nat.le_refl _

theorem pure (a : α) : AtMost cost n (Pure.pure a : Dialogue A ε α) := Nat.zero_le n

theorem raise (e : ε) : AtMost cost n (Dialogue.raise e : Dialogue A ε α) := Nat.zero_le n

theorem lift (x : Except ε α) : AtMost cost n (Dialogue.lift x : Dialogue A ε α) := by
  cases x with
  | ok a => exact Nat.zero_le n
  | error e => exact Nat.zero_le n

theorem ask {c : C} (hc : cost c ≤ n) : AtMost cost n (Dialogue.ask c : Dialogue A ε (A c)) :=
  ⟨hc, fun _ => Nat.zero_le _⟩

theorem bind {f : α → Dialogue A ε β} (hm : AtMost cost n m) (hf : ∀ a, AtMost cost k (f a)) :
    AtMost cost (n + k) (m >>= f) :=
  Spends.bind (Spends.frame hm k) (fun a => (hf a).mono (Nat.le_add_left k 0))
    fun _ => Nat.zero_le _

theorem free_bind {f : α → Dialogue A ε β} (hm : AtMost cost 0 m) (hf : ∀ a, AtMost cost k (f a)) :
    AtMost cost k (m >>= f) :=
  (hm.bind hf).mono (Nat.le_of_eq (Nat.zero_add k))

theorem bind_free {f : α → Dialogue A ε β} (hm : AtMost cost n m) (hf : ∀ a, AtMost cost 0 (f a)) :
    AtMost cost n (m >>= f) :=
  hm.bind hf

theorem attempt (hm : AtMost cost n m) : AtMost cost n (Dialogue.attempt m) :=
  Spends.attempt hm fun _ => Nat.le_refl _

end AtMost

end LeadPipe.Framework.Dialogue
