import Mathlib.Data.List.Infix
import LeadPipe.Python.UrlLaws

/-!
# Strings

What stripping leaves of a text, that `int` reads what `str` wrote, and that the methods without a
database do not mind a change of the alphabet.
-/

namespace LeadPipe

theorem visible_space {c : Char} (hc : 32 < c.toNat ∧ c.toNat < 128) (uc : Unicode) :
    uc.isSpace c = false := by
  rw [uc.isSpace_ascii c hc.2, Text.asciiSpace]
  simp
  omega

/-- The database of digits has the decimal ones at least. -/
def ReadsDigits (decimal : Char → Option Nat) : Prop :=
  ∀ c : Char, c.isDigit = true → decimal c = some (c.toNat - '0'.toNat)

namespace Text

variable {p : Char → Bool} {s : Text}

theorem lstrip_within (p : Char → Bool) (s : Text) : lstrip p s <:+: s :=
  (List.dropWhile_suffix p).isInfix

theorem rstrip_within (p : Char → Bool) (s : Text) : rstrip p s <:+: s :=
  (List.rdropWhile_prefix p s).isInfix

theorem strip_within (p : Char → Bool) (s : Text) : strip p s <:+: s :=
  (rstrip_within p _).trans (lstrip_within p s)

theorem removePrefix_within (pre s : Text) : removePrefix pre s <:+: s := by
  unfold removePrefix
  split
  · exact (List.drop_suffix _ s).isInfix
  · exact List.infix_refl s

theorem partition_within (sep : Char) (s : Text) : (partition sep s).1 <:+: s := by
  rcases partition_cases sep s with ⟨-, hpart⟩ | ⟨before, after, -, rfl, hpart⟩
  · simp only [hpart, List.infix_rfl]
  · rw [hpart]
    exact (List.prefix_append before _).isInfix

theorem removePrefix_eq_self {pre : Text} (hpre : pre ≠ []) :
    removePrefix pre s = s ↔ startsWith pre s = false := by
  unfold removePrefix
  cases hstart : startsWith pre s with
  | false => simp
  | true =>
      have hle := (List.isPrefixOf_iff_prefix.mp hstart).length_le
      have hpos := List.length_pos_iff.mpr hpre
      simp only [if_true, Bool.true_eq_false, iff_false]
      intro hsame
      have hlength := congrArg List.length hsame
      rw [List.length_drop] at hlength
      omega

/-- Neither end of the text is stripped. -/
def Bounded (p : Char → Bool) (s : Text) : Prop :=
  (∀ c, s.head? = some c → p c = false) ∧ ∀ c, s.getLast? = some c → p c = false

theorem strip_bounded (p : Char → Bool) (s : Text) : Bounded p (strip p s) := by
  constructor
  · intro c hc
    have hfirst : (lstrip p s).head? = some c := by
      obtain ⟨rest, hrest⟩ := List.rdropWhile_prefix p (lstrip p s)
      rw [← hrest, List.head?_append]
      change (List.rdropWhile p (lstrip p s)).head? = some c at hc
      rw [hc]
      rfl
    have hnot := List.head?_dropWhile_not p s
    change (List.dropWhile p s).head? = some c at hfirst
    rw [hfirst] at hnot
    exact hnot
  · intro c hc
    change (List.rdropWhile p (lstrip p s)).getLast? = some c at hc
    have hne : List.rdropWhile p (lstrip p s) ≠ [] := by
      intro hnil
      rw [hnil] at hc
      cases hc
    rw [List.getLast?_eq_some_getLast hne] at hc
    obtain rfl := Option.some.inj hc
    have hnot := List.rdropWhile_last_not p (lstrip p s) hne
    simpa using hnot

theorem Bounded.strip (h : Bounded p s) : Text.strip p s = s := by
  have hfirst : lstrip p s = s := by
    cases s with
    | nil => rfl
    | cons c cs =>
        apply List.dropWhile_cons_of_neg
        simp [h.1 c rfl]
  unfold Text.strip
  rw [hfirst]
  apply List.rdropWhile_eq_self_iff.mpr
  intro hne
  simpa using h.2 _ (List.getLast?_eq_some_getLast hne)

theorem strip_eq_self : Text.strip p s = s ↔ Bounded p s := by
  constructor
  · intro h
    rw [← h]
    exact strip_bounded p s
  · exact Bounded.strip

variable {decimal : Char → Option Nat}

theorem intDigits_digits (hdecimal : ReadsDigits decimal) {s : Text}
    (hs : ∀ c ∈ s, c.isDigit = true) (digits : List Nat) :
    intDigits decimal true digits s =
      some ((s.map fun c => c.toNat - '0'.toNat).reverse ++ digits) := by
  induction s generalizing digits with
  | nil => rfl
  | cons c s ih =>
      have hrest := ih (fun d hd => hs d (List.mem_cons_of_mem _ hd)) ((c.toNat - '0'.toNat) :: digits)
      simp only [intDigits, hdecimal c (hs c List.mem_cons_self)]
      rw [hrest]
      simp

theorem ofNat_digits (n : Nat) : ∀ c ∈ ofNat n, c.isDigit = true :=
  fun _ hc => Nat.isDigit_of_mem_toDigits (by decide) (by decide) hc

theorem ofNat_ne_nil (n : Nat) : ofNat n ≠ [] := Nat.toDigits_ne_nil

theorem intDigits_ofNat (hdecimal : ReadsDigits decimal) (n : Nat) :
    intDigits decimal false [] (ofNat n) =
      some ((ofNat n).map fun c => c.toNat - '0'.toNat).reverse := by
  have hdigits := ofNat_digits n
  cases hn : ofNat n with
  | nil => exact absurd hn (ofNat_ne_nil n)
  | cons c s =>
      rw [hn] at hdigits
      simp only [intDigits, hdecimal c (hdigits c List.mem_cons_self)]
      rw [intDigits_digits hdecimal fun d hd => hdigits d (List.mem_cons_of_mem _ hd)]
      simp

theorem value_ofNat (n : Nat) :
    ((ofNat n).map fun c => c.toNat - '0'.toNat).reverse.foldr (fun d n => 10 * n + d) 0 = n := by
  have hvalue : toNat (ofNat n) = n := Nat.ofDigitChars_ten_toDigits
  rw [List.foldr_reverse, List.foldl_map]
  exact hvalue

theorem int_value (digits : List Nat) :
    List.foldr (fun (d n : Int) => 10 * n + d) 0 (digits >>= fun d => pure (d : Int)) =
      (List.foldr (fun d n : Nat => 10 * n + d) 0 digits : Nat) := by
  induction digits with
  | nil => rfl
  | cons d digits ih =>
      have hcast : (d :: digits >>= fun d => pure (d : Int)) =
          (d : Int) :: (digits >>= fun d => pure (d : Int)) := rfl
      rw [hcast, List.foldr_cons, List.foldr_cons, ih]
      norm_cast

theorem ofInt_chars {n : Int} {c : Char} (hc : c ∈ ofInt n) : c = '-' ∨ c.isDigit = true := by
  unfold ofInt at hc
  split at hc
  · exact (List.mem_cons.mp hc).imp_right fun hc => ofNat_digits _ c hc
  · exact .inr (ofNat_digits _ c hc)

theorem ofInt_ne_nil (n : Int) : ofInt n ≠ [] := by
  unfold ofInt
  split
  · simp
  · exact ofNat_ne_nil _

theorem ofInt_visible (uc : Unicode) (n : Int) : ∀ c ∈ ofInt n, uc.isSpace c = false := by
  intro c hc
  apply visible_space
  rcases ofInt_chars hc with rfl | hdigit
  · decide
  · rw [isDigit_iff] at hdigit
    omega

/-- `int(str(n))` is `n`. -/
theorem int_ofInt (uc : Unicode) (hdecimal : ReadsDigits decimal) {n : Int}
    (hn : (ofNat n.natAbs).length ≤ 4300) : int uc.isSpace decimal (ofInt n) = some n := by
  have hvisible := ofInt_visible uc n
  have hstrip : strip uc.isSpace (ofInt n) = ofInt n := by
    apply Bounded.strip
    exact ⟨fun c hc => hvisible c (List.mem_of_head? hc),
      fun c hc => hvisible c (List.mem_of_getLast? hc)⟩
  have hlength : ((ofNat n.natAbs).map fun c => c.toNat - '0'.toNat).reverse.length ≤ 4300 := by
    simpa using hn
  by_cases hneg : n < 0
  · have hwritten : ofInt n = '-' :: ofNat n.natAbs := if_pos hneg
    rw [int, hstrip, hwritten]
    simp only [intDigits_ofNat hdecimal, Option.bind_some, if_pos hlength, if_true]
    rw [int_value, value_ofNat, Option.some_inj]
    omega
  · have hwritten : ofInt n = ofNat n.natAbs := if_neg hneg
    have hdigits := ofNat_digits n.natAbs
    rw [int, hstrip, hwritten]
    split
    · rename_i hsign
      split at hsign
      · rename_i hminus
        exact absurd (hdigits '-' (by simp [hminus])) (by decide)
      · rename_i hplus
        exact absurd (hdigits '+' (by simp [hplus])) (by decide)
      · obtain ⟨rfl, rfl⟩ := Prod.mk.inj hsign
        simp only [intDigits_ofNat hdecimal, Option.bind_some, if_pos hlength, Bool.false_eq_true,
          if_false]
        rw [int_value, value_ofNat, Option.some_inj]
        omega

theorem ofInt_injective : Function.Injective ofInt := by
  intro m n h
  have hnat {a b : Nat} (hab : ofNat a = ofNat b) : a = b := by
    have hvalue := congrArg toNat hab
    rwa [show toNat (ofNat a) = a from Nat.ofDigitChars_ten_toDigits,
      show toNat (ofNat b) = b from Nat.ofDigitChars_ten_toDigits] at hvalue
  have hminus (a : Nat) (s : Text) : ofNat a ≠ '-' :: s := by
    intro heq
    exact absurd (ofNat_digits a '-' (by simp [heq])) (by decide)
  unfold ofInt at h
  split at h <;> split at h
  · have habs := hnat (List.cons.inj h).2
    omega
  · exact absurd h.symm (hminus _ _)
  · exact absurd h (hminus _ _)
  · have habs := hnat h
    omega

section Alphabet

variable {α β : Type} {f : α → β} {p : β → Bool} {s : List α}

theorem lstrip_map : lstrip p (s.map f) = (lstrip (p ∘ f) s).map f := List.dropWhile_map

theorem rstrip_map : rstrip p (s.map f) = (rstrip (p ∘ f) s).map f := by
  rw [rstrip, rstrip, List.rdropWhile, List.rdropWhile, ← List.map_reverse, List.dropWhile_map,
    List.map_reverse]

theorem strip_map : strip p (s.map f) = (strip (p ∘ f) s).map f := by
  rw [strip, strip, lstrip_map, rstrip_map]

/-- No other character is read as `a`. -/
def Distinct (f : α → β) (a : α) : Prop := ∀ b, f b = f a → b = a

variable {a sep : α} {pre sub : List α}

theorem Distinct.eq_iff (h : Distinct f a) {b : α} : f b = f a ↔ b = a :=
  ⟨h b, fun heq => by rw [heq]⟩

theorem Distinct.mem_map (h : Distinct f a) : f a ∈ s.map f ↔ a ∈ s := by
  constructor
  · intro hmem
    obtain ⟨b, hb, heq⟩ := List.mem_map.mp hmem
    rwa [← h b heq]
  · exact List.mem_map_of_mem

variable [DecidableEq α] [DecidableEq β]

theorem Distinct.bne (h : Distinct f sep) : (fun b => f b != f sep) = fun b => b != sep := by
  funext b
  rw [Bool.eq_iff_iff, bne_iff_ne, bne_iff_ne, Ne, h.eq_iff]

theorem Distinct.contains (h : Distinct f a) : (s.map f).contains (f a) = s.contains a := by
  rw [Bool.eq_iff_iff, List.contains_iff_mem, List.contains_iff_mem, h.mem_map]

theorem startsWith_map (h : ∀ a ∈ pre, Distinct f a) :
    startsWith (pre.map f) (s.map f) = startsWith pre s := by
  induction pre generalizing s with
  | nil => rfl
  | cons a pre ih =>
      cases s with
      | nil => rfl
      | cons b s =>
          have hhead : (f a == f b) = (a == b) := by
            rw [Bool.eq_iff_iff, beq_iff_eq, beq_iff_eq, eq_comm,
              (h a List.mem_cons_self).eq_iff, eq_comm]
          have hrest := @ih s fun c hc => h c (List.mem_cons_of_mem a hc)
          simp only [startsWith, List.map_cons, List.isPrefixOf] at hrest ⊢
          rw [hhead, hrest]

theorem removePrefix_map (h : ∀ a ∈ pre, Distinct f a) :
    removePrefix (pre.map f) (s.map f) = (removePrefix pre s).map f := by
  unfold removePrefix
  rw [startsWith_map h, List.length_map]
  split
  · exact (List.map_drop ..).symm
  · rfl

theorem containsSub_map (h : ∀ a ∈ sub, Distinct f a) :
    containsSub (sub.map f) (s.map f) = containsSub sub s := by
  rw [containsSub, containsSub, List.map_tails, List.any_map]
  congr 1
  funext t
  exact startsWith_map h

theorem partition_map (h : Distinct f sep) :
    partition (f sep) (s.map f) =
      ((partition sep s).1.map f, (partition sep s).2.1, (partition sep s).2.2.map f) := by
  have hbne : ((· != f sep) ∘ f) = (· != sep) := h.bne
  unfold partition
  rw [List.dropWhile_map, List.takeWhile_map, hbne]
  cases s.dropWhile (· != sep) <;> rfl

theorem rpartition_map (h : Distinct f sep) :
    rpartition (f sep) (s.map f) =
      ((rpartition sep s).1.map f, (rpartition sep s).2.1, (rpartition sep s).2.2.map f) := by
  unfold rpartition
  rw [← List.map_reverse, partition_map h]
  rcases partition sep s.reverse with ⟨after, found, before⟩
  cases found <;> simp

theorem splitOn_map (h : Distinct f sep) :
    (s.map f).splitOn (f sep) = (s.splitOn sep).map (List.map f) := by
  induction s with
  | nil => rfl
  | cons b s ih =>
      have hhead : (f b == f sep) = (b == sep) := by
        rw [Bool.eq_iff_iff, beq_iff_eq, beq_iff_eq, h.eq_iff]
      rw [List.map_cons, List.splitOn_cons_eq_if_modifyHead, List.splitOn_cons_eq_if_modifyHead, ih,
        hhead]
      split
      · rfl
      · cases s.splitOn sep <;> rfl

end Alphabet

end Text

end LeadPipe
