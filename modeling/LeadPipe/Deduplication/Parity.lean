import Mathlib.Data.Finset.Prod
import Mathlib.Order.Interval.Finset.Nat
import Mathlib.Tactic.NormNum
import LeadPipe.Framework.Rounding
import LeadPipe.Deduplication.Matcher
import LeadPipe.Deduplication.Slugs

/-!
# The name rule in SQL and in Python

The candidate query compares a similarity that `pg_trgm` returns in single precision with the
bound 0.7 in double precision, and the matcher compares the exact fraction with 7/10. A slug has
few enough possible trigrams for the rounding to matter at 7/10 alone.
-/

namespace LeadPipe

open Framework

def gramCodes : Finset ℕ := {32} ∪ Finset.Icc 48 57 ∪ Finset.Icc 97 122

def gramChars : Finset Char := gramCodes.image Char.ofNat

def allGrams : Finset Text :=
  (gramChars ×ˢ gramChars ×ˢ gramChars).image fun g => [g.1, g.2.1, g.2.2]

theorem allGrams_card_le : allGrams.card ≤ 37 ^ 3 := by
  have hchars : gramChars.card ≤ 37 := Finset.card_image_le.trans_eq (by decide)
  refine Finset.card_image_le.trans ?_
  rw [Finset.card_product, Finset.card_product]
  calc gramChars.card * (gramChars.card * gramChars.card) ≤ 37 * (37 * 37) :=
        Nat.mul_le_mul hchars (Nat.mul_le_mul hchars hchars)
    _ = 37 ^ 3 := by norm_num

theorem mem_gramChars_of_isSlugChar {c : Char} (h : isSlugChar c = true) : c ∈ gramChars := by
  have hcode : c.toNat ∈ gramCodes := by
    simp only [gramCodes, Finset.mem_union, Finset.mem_singleton, Finset.mem_Icc]
    rcases isSlugChar_iff.mp h with hletter | hdigit
    · exact .inr hletter
    · exact .inl (.inr hdigit)
  exact Finset.mem_image.mpr ⟨c.toNat, hcode, Char.ofNat_toNat c⟩

theorem space_mem_gramChars : ' ' ∈ gramChars :=
  Finset.mem_image.mpr ⟨32, by decide, rfl⟩

section Trigrams

variable (env : Platform)

theorem mem_allGrams_of_wordTrigrams {w gram : Text} (hw : ∀ c ∈ w, isSlugChar c = true)
    (h : gram ∈ wordTrigrams w) : gram ∈ allGrams := by
  obtain ⟨i, hi, rfl⟩ := List.mem_map.mp h
  have hchars : ∀ c ∈ [' ', ' '] ++ w ++ [' '], c ∈ gramChars := by
    intro c hc
    rcases List.mem_append.mp hc with hfront | hlast
    · rcases List.mem_append.mp hfront with hfirst | hword
      · obtain rfl : c = ' ' := by simpa using hfirst
        exact space_mem_gramChars
      · exact mem_gramChars_of_isSlugChar (hw c hword)
    · obtain rfl : c = ' ' := by simpa using hlast
      exact space_mem_gramChars
  have hlength : (([' ', ' '] ++ w ++ [' ']).drop i).length ≥ 3 := by
    have hrange := List.mem_range.mp hi
    simp only [List.length_drop, List.length_append, List.length_cons, List.length_nil] at hrange ⊢
    omega
  have hsub : ∀ c ∈ ([' ', ' '] ++ w ++ [' ']).drop i, c ∈ gramChars :=
    fun c hc => hchars c (List.mem_of_mem_drop hc)
  match hdrop : ([' ', ' '] ++ w ++ [' ']).drop i with
  | [] | [_] | [_, _] =>
      rw [hdrop] at hlength
      simp at hlength
  | a :: b :: c :: rest =>
      rw [hdrop] at hsub
      refine Finset.mem_image.mpr ⟨(a, b, c), ?_, rfl⟩
      rw [Finset.mem_product, Finset.mem_product]
      exact ⟨hsub a (by simp), hsub b (by simp), hsub c (by simp)⟩

theorem trigrams_subset (value : Text) : trigrams env value ⊆ allGrams := by
  intro gram hgram
  obtain ⟨w, hw, hin⟩ := List.mem_flatMap.mp (List.mem_toFinset.mp hgram)
  exact mem_allGrams_of_wordTrigrams (isWord_of_mem env hw).chars hin

theorem trigrams_union_card_le (a b : Text) :
    (trigrams env a ∪ trigrams env b).card ≤ 37 ^ 3 :=
  (Finset.card_le_card (Finset.union_subset (trigrams_subset env a) (trigrams_subset env b))).trans
    allGrams_card_le

end Trigrams

theorem seven_tenths_rounded :
    7 / 10 - 1 / 16777216 ≤ BinaryFormat.single.round (7 / 10) ∧
      BinaryFormat.single.round (7 / 10) < BinaryFormat.double.round (7 / 10) ∧
        BinaryFormat.double.round (7 / 10) ≤ 7 / 10 := by
  decide +kernel

/-- A fraction of counts this small is 7/10 or away from it by more than rounding can move it. -/
theorem le_single_round_iff {m n : ℕ} {bound : ℚ} (hn : 0 < n) (hmn : m ≤ n) (hle : n ≤ 37 ^ 3)
    (hlow : BinaryFormat.single.round (7 / 10) < bound) (hhigh : bound ≤ 7 / 10) :
    bound ≤ BinaryFormat.single.round ((m : ℚ) / n) ↔ 7 * n < 10 * m := by
  have hnpos : (0 : ℚ) < n := Nat.cast_pos.mpr hn
  have hn' : (n : ℚ) ≤ 50653 := by exact_mod_cast hle.trans_eq (by norm_num)
  have hclose : |BinaryFormat.single.round ((m : ℚ) / n) - (m : ℚ) / n| ≤ 1 / 16777216 := by
    have hratio : |(m : ℚ) / n| ≤ 1 := by
      rw [abs_of_nonneg (by positivity)]
      exact div_le_one_of_le₀ (Nat.cast_le.mpr hmn) hnpos.le
    have hulp := BinaryFormat.single.ulp_le_of_abs_le_one (by decide) hratio
    have hexact : (2 : ℚ) ^ (1 - (BinaryFormat.single.precision : ℤ)) = 1 / 8388608 := by
      norm_num [BinaryFormat.single]
    have herror := BinaryFormat.single.abs_round_sub_le ((m : ℚ) / n)
    linarith
  have hlow' : (7 : ℚ) / 10 - 1 / 16777216 ≤ bound := seven_tenths_rounded.1.trans hlow.le
  obtain ⟨hbelow, habove⟩ := abs_le.mp hclose
  rcases lt_trichotomy (7 * n) (10 * m) with hlt | heq | hgt
  · have hgap : (7 : ℚ) * n + 1 ≤ 10 * m := by exact_mod_cast hlt
    have hratio : (7 : ℚ) / 10 + 1 / 506530 ≤ (m : ℚ) / n := by
      rw [le_div_iff₀ hnpos]
      nlinarith
    refine ⟨fun _ => hlt, fun _ => ?_⟩
    linarith
  · have hratio : (m : ℚ) / n = 7 / 10 := by
      have hcast : (7 : ℚ) * n = 10 * m := by exact_mod_cast heq
      rw [div_eq_div_iff hnpos.ne' (by norm_num)]
      linarith
    rw [hratio]
    exact ⟨fun h => absurd h hlow.not_ge, fun h => absurd heq h.ne⟩
  · have hgap : (10 : ℚ) * m + 1 ≤ 7 * n := by exact_mod_cast hgt
    have hratio : (m : ℚ) / n ≤ 7 / 10 - 1 / 506530 := by
      rw [div_le_iff₀ hnpos]
      nlinarith
    refine ⟨fun h => ?_, fun h => absurd h hgt.not_gt⟩
    linarith

/-- What `pg_trgm` answers for two slugs: the fraction, as a `real`. -/
def Platform.SingleSimilarity (env : Platform) : Prop :=
  ∀ (leftName rightName : Option Text) (left right : Text),
    companySlug env leftName = some left → companySlug env rightName = some right →
      env.similarity left right = BinaryFormat.single.round (LeadPipe.similarity env left right)

/-- `similarity(name_slug, :slug) >= :threshold`, the threshold bound as a `double precision`. -/
def sqlSimilar (env : Platform) (nameSlug slug : Text) (policy : MatchPolicy := defaultPolicy) :
    Bool :=
  BinaryFormat.double.round policy.nameSimilarityThreshold ≤ env.similarity nameSlug slug

section Comparisons

variable {env : Platform} {leftName rightName : Option Text} {left right : Text}

theorem similarity_of_slugs (hleft : companySlug env leftName = some left)
    (hright : companySlug env rightName = some right) :
    similarity env left right =
      (trigrams env left ∩ trigrams env right).card /
        (trigrams env left ∪ trigrams env right).card := by
  have hne : ¬(trigrams env left = ∅ ∨ trigrams env right = ∅) :=
    not_or.mpr ⟨slug_trigrams_ne_empty env hleft, slug_trigrams_ne_empty env hright⟩
  exact if_neg hne

theorem union_card_pos (hleft : companySlug env leftName = some left) :
    0 < (trigrams env left ∪ trigrams env right).card :=
  Finset.card_pos.mpr ((Finset.nonempty_iff_ne_empty.mpr
    (slug_trigrams_ne_empty env hleft)).mono Finset.subset_union_left)

theorem le_sql_similarity_iff (hsingle : env.SingleSimilarity)
    (hleft : companySlug env leftName = some left)
    (hright : companySlug env rightName = some right) {bound : ℚ}
    (hlow : BinaryFormat.single.round (7 / 10) < bound) (hhigh : bound ≤ 7 / 10) :
    bound ≤ env.similarity left right ↔
      7 * (trigrams env left ∪ trigrams env right).card <
        10 * (trigrams env left ∩ trigrams env right).card := by
  rw [hsingle leftName rightName left right hleft hright, similarity_of_slugs hleft hright]
  exact le_single_round_iff (union_card_pos hleft)
    (Finset.card_le_card (Finset.inter_subset_left.trans Finset.subset_union_left))
    (trigrams_union_card_le env left right) hlow hhigh

theorem sqlSimilar_iff (hsingle : env.SingleSimilarity)
    (hleft : companySlug env leftName = some left)
    (hright : companySlug env rightName = some right) :
    sqlSimilar env left right = true ↔
      7 * (trigrams env left ∪ trigrams env right).card <
        10 * (trigrams env left ∩ trigrams env right).card :=
  decide_eq_true_iff.trans
    (le_sql_similarity_iff hsingle hleft hright seven_tenths_rounded.2.1 seven_tenths_rounded.2.2)

theorem threshold_le_iff (hleft : companySlug env leftName = some left)
    (hright : companySlug env rightName = some right) :
    defaultPolicy.nameSimilarityThreshold ≤ similarity env left right ↔
      7 * (trigrams env left ∪ trigrams env right).card ≤
        10 * (trigrams env left ∩ trigrams env right).card := by
  have hpos : (0 : ℚ) < (trigrams env left ∪ trigrams env right).card :=
    Nat.cast_pos.mpr (union_card_pos hleft)
  rw [similarity_of_slugs hleft hright, le_div_iff₀ hpos]
  have hscale : defaultPolicy.nameSimilarityThreshold = 7 / 10 := rfl
  rw [hscale, div_mul_eq_mul_div, div_le_iff₀ (by norm_num), mul_comm _ (10 : ℚ)]
  exact_mod_cast Iff.rfl

end Comparisons

/-- The candidate query and the matcher agree on two slugs unless they share exactly seven
tenths of their trigrams: then the matcher accepts the pair and the query leaves it out. -/
theorem sqlSimilar_agrees_iff (env : Platform) (hsingle : env.SingleSimilarity)
    (leftName rightName : Option Text) (left right : Text)
    (hleft : companySlug env leftName = some left)
    (hright : companySlug env rightName = some right) :
    (sqlSimilar env left right = true ↔
        defaultPolicy.nameSimilarityThreshold ≤ similarity env left right) ↔
      10 * (trigrams env left ∩ trigrams env right).card ≠
        7 * (trigrams env left ∪ trigrams env right).card := by
  rw [sqlSimilar_iff hsingle hleft hright, threshold_le_iff hleft hright]
  omega

/-- ASCII text, with the similarity of `pg_trgm` in single precision. -/
def Platform.pgTrgm : Platform :=
  { Platform.ascii with
    similarity := fun a b => BinaryFormat.single.round (LeadPipe.similarity .ascii a b) }

theorem pgTrgm_single : Platform.pgTrgm.SingleSimilarity := fun _ _ _ _ _ _ => rfl

theorem sqlSimilar_agrees_iff_acme :
    (sqlSimilar .pgTrgm "acme".toList "acme".toList = true ↔
        defaultPolicy.nameSimilarityThreshold ≤
          similarity .pgTrgm "acme".toList "acme".toList) ↔
      10 * (trigrams .pgTrgm "acme".toList ∩ trigrams .pgTrgm "acme".toList).card ≠
        7 * (trigrams .pgTrgm "acme".toList ∪ trigrams .pgTrgm "acme".toList).card :=
  sqlSimilar_agrees_iff .pgTrgm pgTrgm_single (some "Acme Oy".toList) (some "Acme".toList) _ _
    (by decide +kernel) (by decide +kernel)

/-- A name of seven letters and its plural share seven of ten trigrams. -/
theorem sql_misses_the_plural :
    ¬∀ env : Platform, env.SingleSimilarity → ∀ (leftName rightName : Option Text)
      (left right : Text), companySlug env leftName = some left →
        companySlug env rightName = some right →
          (sqlSimilar env left right = true ↔
            defaultPolicy.nameSimilarityThreshold ≤ similarity env left right) := by
  intro h
  have hboth := h .pgTrgm pgTrgm_single (some "Plumber".toList) (some "Plumbers".toList)
    "plumber".toList "plumbers".toList (by decide +kernel) (by decide +kernel)
  have hpython : defaultPolicy.nameSimilarityThreshold ≤
      similarity .pgTrgm "plumber".toList "plumbers".toList := by decide +kernel
  have hsql : sqlSimilar .pgTrgm "plumber".toList "plumbers".toList = false := by
    decide +kernel
  rw [hboth.mpr hpython] at hsql
  cases hsql

end LeadPipe
