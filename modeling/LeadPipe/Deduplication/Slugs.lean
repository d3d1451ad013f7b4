import Mathlib.Algebra.Order.Field.Basic
import Mathlib.Algebra.Order.Ring.Rat
import LeadPipe.Deduplication.Fingerprint
import LeadPipe.Framework.Tokens
import LeadPipe.Python.UrlLaws

/-!
# Slugs of company names

A slug is what the words of a name leave when the legal suffixes at the end are gone, and its words
are read back from it. A suffix that is appended is gone again.
-/

namespace LeadPipe

open Framework

/-- `str.casefold` replaces each character by itself, and none by nothing. -/
structure Unicode.FoldsChars (uc : Unicode) : Prop where
  append : ∀ s t, uc.casefold (s ++ t) = uc.casefold s ++ uc.casefold t
  eq_nil : ∀ s, uc.casefold s = [] → s = []

theorem Unicode.ascii_foldsChars : Unicode.ascii.FoldsChars where
  append _ _ := List.map_append
  eq_nil _ := List.map_eq_nil_iff.mp

theorem isSlugChar_iff {c : Char} :
    isSlugChar c = true ↔ (97 ≤ c.toNat ∧ c.toNat ≤ 122) ∨ (48 ≤ c.toNat ∧ c.toNat ≤ 57) := by
  simp only [isSlugChar, Bool.or_eq_true, Bool.and_eq_true, decide_eq_true_eq, Char.le_def,
    UInt32.le_iff_toNat_le]
  exact Iff.rfl

def IsWord (w : Text) : Prop := IsToken (fun c => !isSlugChar c) w

theorem IsWord.chars {w : Text} (h : IsWord w) : ∀ c ∈ w, isSlugChar c = true := by
  intro c hc
  simpa using h.2 c hc

section Words

variable (env : Platform)

theorem words_eq (value : Text) :
    words env value = tokens (fun c => !isSlugChar c) (env.unicode.casefold value) := rfl

theorem isWord_of_mem {value w : Text} (h : w ∈ words env value) : IsWord w := isToken_of_mem h

def slugWords (value : Text) : List Text :=
  (words env value).rdropWhile fun w => legalSuffixes.contains w

theorem companySlug_some (value : Text) :
    companySlug env (some value) = Text.orNone (Text.join [' '] (slugWords env value)) := rfl

theorem isWord_of_slugWords {value w : Text} (h : w ∈ slugWords env value) : IsWord w :=
  isWord_of_mem env ((List.rdropWhile_prefix _ _).subset h)

theorem casefold_join {ws : List Text} (hws : ∀ w ∈ ws, IsWord w) :
    env.unicode.casefold (Text.join [' '] ws) = Text.join [' '] ws := by
  have hcode : ∀ c ∈ Text.join [' '] ws, c.toNat < 128 ∧ c.isUpper = false := by
    intro c hc
    rcases Text.mem_join hc with hspace | ⟨w, hw, hcw⟩
    · obtain rfl : c = ' ' := by simpa using hspace
      decide
    · have hrange := isSlugChar_iff.mp ((hws w hw).chars c hcw)
      refine ⟨by omega, ?_⟩
      rw [← Bool.not_eq_true, Text.isUpper_iff]
      omega
  rw [env.unicode.casefold_ascii _ (Text.isAscii_iff.mpr fun c hc => (hcode c hc).1)]
  refine (List.map_congr_left fun c hc => ?_).trans (List.map_id _)
  exact Text.toLower_of_not_upper (by simp [(hcode c hc).2])

theorem words_join {ws : List Text} (hws : ∀ w ∈ ws, IsWord w) :
    words env (Text.join [' '] ws) = ws := by
  rw [words_eq, casefold_join env hws]
  exact tokens_intersperse (by decide) hws

theorem companySlug_spec {value : Option Text} {slug : Text}
    (h : companySlug env value = some slug) :
    ∃ name, value = some name ∧ slugWords env name ≠ [] ∧
      slug = Text.join [' '] (slugWords env name) ∧ words env slug = slugWords env name := by
  obtain ⟨name, rfl, hv⟩ := Option.bind_eq_some_iff.mp h
  obtain ⟨rfl, hne⟩ := Text.orNone_eq_some.mp hv
  refine ⟨name, rfl, fun hnil => hne ?_, rfl, words_join env fun w => isWord_of_slugWords env⟩
  change Text.join [' '] (slugWords env name) = []
  rw [hnil]
  rfl

end Words

/-- A separator and a legal suffix, in whatever case its letters are. -/
structure Appended (env : Platform) where
  separator : Text
  suffix : Text
  nonempty : separator ≠ []
  separates : ∀ c ∈ env.unicode.casefold separator, isSlugChar c = false
  legal : env.unicode.casefold suffix ∈ legalSuffixes

def Appended.write {env : Platform} (a : Appended env) : Text := a.separator ++ a.suffix

theorem isWord_of_legal : ∀ w ∈ legalSuffixes, IsWord w := by
  have hall : legalSuffixes.all fun w => !w.isEmpty && w.all isSlugChar := by decide
  intro w hw
  have hw' := List.all_eq_true.mp hall w hw
  simp only [Bool.and_eq_true, Bool.not_eq_true', List.isEmpty_eq_false_iff,
    List.all_eq_true] at hw'
  exact ⟨hw'.1, fun c hc => by simpa using hw'.2 c hc⟩

section Appending

variable {env : Platform} (hfold : env.unicode.FoldsChars)

include hfold

theorem words_append (name : Text) (a : Appended env) :
    words env (name ++ a.write) = words env name ++ [env.unicode.casefold a.suffix] := by
  have hne : env.unicode.casefold a.separator ≠ [] := fun hnil =>
    a.nonempty (hfold.eq_nil a.separator hnil)
  have hsep : ∀ c ∈ env.unicode.casefold a.separator, (!isSlugChar c) = true := by
    intro c hc
    simpa using a.separates c hc
  have hword : tokens (fun c => !isSlugChar c) (env.unicode.casefold a.suffix) =
      [env.unicode.casefold a.suffix] := (isWord_of_legal _ a.legal).tokens
  rw [words_eq, words_eq, Appended.write, hfold.append, hfold.append, ← List.append_assoc,
    tokens_append hne hsep, hword]

theorem slugWords_append (name : Text) (a : Appended env) :
    slugWords env (name ++ a.write) = slugWords env name := by
  have hlegal : legalSuffixes.contains (env.unicode.casefold a.suffix) = true := by
    simpa using a.legal
  unfold slugWords
  rw [words_append hfold, List.rdropWhile_concat_pos _ _ _ hlegal]

theorem companySlug_append (name : Text) (appended : List (Appended env)) :
    companySlug env (some (name ++ (appended.map Appended.write).flatten)) =
      companySlug env (some name) := by
  induction appended generalizing name with
  | nil => rw [List.map_nil, List.flatten_nil, List.append_nil]
  | cons a appended ih =>
      rw [List.map_cons, List.flatten_cons, ← List.append_assoc, ih, companySlug_some,
        slugWords_append hfold, companySlug_some]

end Appending

section Similarity

variable (env : Platform)

theorem trigrams_ne_empty_of_words {value w : Text} (h : w ∈ words env value) :
    trigrams env value ≠ ∅ := by
  have hgram : ([' ', ' '] ++ w ++ [' ']).take 3 ∈ wordTrigrams w :=
    List.mem_map.mpr ⟨0, List.mem_range.mpr (by simp), rfl⟩
  exact Finset.ne_empty_of_mem (List.mem_toFinset.mpr (List.mem_flatMap.mpr ⟨w, h, hgram⟩))

theorem slug_trigrams_ne_empty {value : Option Text} {slug : Text}
    (h : companySlug env value = some slug) : trigrams env slug ≠ ∅ := by
  obtain ⟨name, -, hne, -, hwords⟩ := companySlug_spec env h
  obtain ⟨w, hw⟩ := List.exists_mem_of_ne_nil _ hne
  exact trigrams_ne_empty_of_words env (hwords ▸ hw)

theorem similarity_comm (a b : Text) : similarity env a b = similarity env b a := by
  simp only [similarity, or_comm, Finset.inter_comm, Finset.union_comm]

variable {env}

theorem similarity_self {s : Text} (h : trigrams env s ≠ ∅) : similarity env s s = 1 := by
  have hcard : ((trigrams env s).card : ℚ) ≠ 0 := by simpa using h
  unfold similarity
  dsimp only
  rw [if_neg (by simpa using h), Finset.inter_self, Finset.union_self, div_self hcard]

theorem similarity_nonneg (left right : Text) : 0 ≤ similarity env left right := by
  unfold similarity
  dsimp only
  split
  · exact le_rfl
  · exact div_nonneg (Nat.cast_nonneg _) (Nat.cast_nonneg _)

theorem similarity_le_one (left right : Text) : similarity env left right ≤ 1 := by
  unfold similarity
  dsimp only
  split
  · exact zero_le_one
  · have hle : (trigrams env left ∩ trigrams env right).card ≤
        (trigrams env left ∪ trigrams env right).card :=
      Finset.card_le_card (Finset.inter_subset_left.trans Finset.subset_union_left)
    exact div_le_one_of_le₀ (Nat.cast_le.mpr hle) (Nat.cast_nonneg _)

end Similarity

theorem slug_last_word {env : Platform} {value : Option Text} {slug : Text}
    (h : companySlug env value = some slug) :
    ∀ w ∈ (slug.splitOn ' ').getLast?, w ∉ legalSuffixes := by
  obtain ⟨name, -, hne, hslug, -⟩ := companySlug_spec env h
  have hsplit : slug.splitOn ' ' = slugWords env name := by
    have hjoin : slug = [' '].intercalate (slugWords env name) := hslug
    rw [hjoin, List.splitOn_intercalate ' ' ?_ hne]
    intro w hw hspace
    exact absurd ((isWord_of_slugWords env hw).chars ' ' hspace) (by decide)
  intro w hw
  rw [hsplit, List.getLast?_eq_some_getLast hne] at hw
  obtain rfl := Option.some.inj hw
  have hlast : ¬legalSuffixes.contains ((slugWords env name).getLast hne) = true :=
    List.rdropWhile_last_not _ _ hne
  simpa using hlast

theorem companySlug_slug {env : Platform} {value : Option Text} {slug : Text}
    (h : companySlug env value = some slug) : companySlug env (some slug) = some slug := by
  obtain ⟨name, hname, -, hslug, hwords⟩ := companySlug_spec env h
  have hagain : slugWords env slug = slugWords env name := by
    rw [slugWords, hwords]
    exact List.rdropWhile_idempotent _ _
  rw [companySlug_some, hagain, ← companySlug_some, ← hname]
  exact h

/-- The slug of a name is a key: it does not change when it is taken again or when legal suffixes
are appended, and it compares with itself and others as a similarity should. -/
theorem company_slug_is_stable {env : Platform} (hfold : env.unicode.FoldsChars) :
    (∀ name slug, companySlug env (some name) = some slug →
      companySlug env (some slug) = some slug ∧
        (∀ w ∈ (slug.splitOn ' ').getLast?, w ∉ legalSuffixes) ∧
          trigrams env slug ≠ ∅ ∧ similarity env slug slug = 1) ∧
      (∀ name (appended : List (Appended env)),
        companySlug env (some (name ++ (appended.map Appended.write).flatten)) =
          companySlug env (some name)) ∧
        ∀ left right, similarity env left right = similarity env right left ∧
          0 ≤ similarity env left right ∧ similarity env left right ≤ 1 := by
  refine ⟨fun name slug h => ?_, companySlug_append hfold, fun left right => ?_⟩
  · have hgrams := slug_trigrams_ne_empty env h
    exact ⟨companySlug_slug h, slug_last_word h, hgrams, similarity_self hgrams⟩
  · exact ⟨similarity_comm env left right, similarity_nonneg left right,
      similarity_le_one left right⟩

private def appendedLtd : Appended .ascii where
  separator := ", ".toList
  suffix := "LTD".toList
  nonempty := by decide
  separates c hc := by
    have hall : (Unicode.ascii.casefold ", ".toList).all (fun c => !isSlugChar c) = true := by
      decide
    simpa using List.all_eq_true.mp hall c hc
  legal := by decide

theorem company_slug_is_stable_ltd :
    companySlug .ascii (some ("Example Services Oy".toList ++ appendedLtd.write)) =
        some "example services".toList ∧
      companySlug .ascii (some "example services".toList) = some "example services".toList := by
  obtain ⟨hslug, happended, -⟩ := @company_slug_is_stable .ascii Unicode.ascii_foldsChars
  have hname : companySlug .ascii (some "Example Services Oy".toList) =
      some "example services".toList := by decide
  have hltd := happended "Example Services Oy".toList [appendedLtd]
  rw [List.map_singleton, List.flatten_singleton, hname] at hltd
  exact ⟨hltd, (hslug _ _ hname).1⟩

end LeadPipe
