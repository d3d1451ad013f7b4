import Mathlib.Data.List.Chain
import LeadPipe.Normalization.Sites
import LeadPipe.Python.Strings

/-!
# Cleaned text in lower case

Text that `clean_text` returns has single blanks and nothing else that counts as a space, none of
them at an end. Lower-casing keeps it so, because it works word by word and makes no new spaces.
-/

namespace LeadPipe

/-- What is documented of `str.lower`: it leaves what separates words alone, makes no space and no
ASCII character but letters, empties nothing, and has nothing left to do on a part of a text that
it has been applied to. -/
structure Unicode.LowersText (uc : Unicode) : Prop where
  idem : ∀ s, uc.lower (uc.lower s) = uc.lower s
  part : ∀ s t, t <:+: s → uc.lower s = s → uc.lower t = t
  blank : ∀ a c b, uc.isSpace c = true → uc.lower (a ++ c :: b) = uc.lower a ++ c :: uc.lower b
  fresh : ∀ s c, c ∈ uc.lower s →
    uc.isSpace c = true ∨ (c.toNat < 128 ∧ c.isAlpha = false) → c ∈ s
  nonempty : ∀ s, s ≠ [] → uc.lower s ≠ []

/-- What is documented of `str.lower`: the case of an ASCII letter does not depend on what
follows it. -/
def Unicode.LowersFront (uc : Unicode) : Prop :=
  ∀ a s : Text, a.isAscii = true → a.map Char.toLower <+: uc.lower (a ++ s)

/-- The only spaces are single blanks. -/
structure Tidy (uc : Unicode) (s : Text) : Prop where
  blanks : ∀ c ∈ s, uc.isSpace c = true → c = ' '
  single : s.IsChain fun a b => uc.isSpace a = true → uc.isSpace b = false

namespace Tidy

variable {uc : Unicode} {s t : Text}

theorem part (h : Tidy uc s) (ht : t <:+: s) : Tidy uc t :=
  ⟨fun c hc => h.blanks c (ht.subset hc), h.single.infix ht⟩

theorem of_no_space (h : ∀ c ∈ s, uc.isSpace c = false) : Tidy uc s := by
  constructor
  · intro c hc hspace
    rw [h c hc] at hspace
    cases hspace
  · induction s with
    | nil => exact .nil
    | cons c cs ih =>
        rw [List.isChain_cons]
        constructor
        · intro d hd _
          exact h d (List.mem_cons_of_mem _ (List.mem_of_mem_head? hd))
        · exact ih fun d hd => h d (List.mem_cons_of_mem _ hd)

theorem append (hs : Tidy uc s) (ht : Tidy uc t)
    (hmeet : ∀ c, s.getLast? = some c → uc.isSpace c = true →
      ∀ d, t.head? = some d → uc.isSpace d = false) : Tidy uc (s ++ t) := by
  constructor
  · intro c hc hspace
    rcases List.mem_append.mp hc with hc | hc
    · exact hs.blanks c hc hspace
    · exact ht.blanks c hc hspace
  · apply hs.single.append ht.single
    intro c hc d hd hspace
    exact hmeet c hc hspace d hd

theorem join (hs : Tidy uc s) (ht : Tidy uc t)
    (hbefore : ∀ c, s.getLast? = some c → uc.isSpace c = false)
    (hafter : ∀ c, t.head? = some c → uc.isSpace c = false) : Tidy uc (s ++ ' ' :: t) := by
  have hblank : Tidy uc (' ' :: t) := by
    constructor
    · intro c hc hspace
      rcases List.mem_cons.mp hc with rfl | hc
      · rfl
      · exact ht.blanks c hc hspace
    · rw [List.isChain_cons]
      exact ⟨fun c hc _ => hafter c hc, ht.single⟩
  apply hs.append hblank
  intro c hc hspace
  rw [hbefore c hc] at hspace
  cases hspace

end Tidy

section

variable {uc : Unicode} {s : Text}

theorem space_blank (uc : Unicode) : uc.isSpace ' ' = true := by
  rw [uc.isSpace_ascii _ (by decide)]
  rfl

theorem collapseSpace_tidy (inRun : Bool) (s : Text) :
    Tidy uc (collapseSpace uc.isSpace inRun s) ∧
      (inRun = true → ∀ c, (collapseSpace uc.isSpace inRun s).head? = some c →
        uc.isSpace c = false) := by
  induction s generalizing inRun with
  | nil => exact ⟨Tidy.of_no_space (by simp [collapseSpace]), by simp [collapseSpace]⟩
  | cons c cs ih =>
      unfold collapseSpace
      cases hspace : uc.isSpace c with
      | true =>
          cases inRun with
          | true => exact ih true
          | false =>
              obtain ⟨htidy, hhead⟩ := ih true
              refine ⟨?_, by simp⟩
              apply Tidy.join (s := []) (Tidy.of_no_space (by simp)) htidy (by simp)
              exact hhead rfl
      | false =>
          obtain ⟨htidy, -⟩ := ih false
          refine ⟨⟨?_, ?_⟩, ?_⟩
          · intro d hd hd'
            rcases List.mem_cons.mp hd with rfl | hd
            · rw [hspace] at hd'
              cases hd'
            · exact htidy.blanks d hd hd'
          · simp only [Bool.false_eq_true, if_false]
            rw [List.isChain_cons]
            refine ⟨fun d _ hc => ?_, htidy.single⟩
            rw [hspace] at hc
            cases hc
          · intro _ d hd
            obtain rfl : c = d := by simpa using hd
            exact hspace

theorem Tidy.collapse (h : Tidy uc s) {inRun : Bool}
    (hstart : inRun = true → ∀ c, s.head? = some c → uc.isSpace c = false) :
    collapseSpace uc.isSpace inRun s = s := by
  induction s generalizing inRun with
  | nil => rfl
  | cons c cs ih =>
      obtain ⟨hnext, -⟩ := List.isChain_cons.mp h.single
      have hrest : Tidy uc cs := h.part (List.suffix_cons c cs).isInfix
      unfold collapseSpace
      cases hspace : uc.isSpace c with
      | true =>
          obtain rfl := h.blanks c List.mem_cons_self hspace
          cases inRun with
          | true =>
              have hfalse := hstart rfl ' ' rfl
              rw [hspace] at hfalse
              cases hfalse
          | false =>
              simp only [if_true, Bool.false_eq_true, if_false]
              rw [ih hrest fun _ d hd => hnext d hd hspace]
      | false =>
          simp only [Bool.false_eq_true, if_false]
          rw [ih hrest (by simp)]

end

/-- What `clean_text` returns. -/
structure Cleaned (uc : Unicode) (s : Text) : Prop where
  tidy : Tidy uc s
  bounded : Text.Bounded uc.isSpace s
  nonempty : s ≠ []

namespace Cleaned

variable {env : Platform} {uc : Unicode} {s : Text}

theorem of_word (hs : ∀ c ∈ s, uc.isSpace c = false) (hne : s ≠ []) : Cleaned uc s where
  tidy := Tidy.of_no_space hs
  bounded := ⟨fun c hc => hs c (List.mem_of_mem_head? hc), fun c hc => hs c (List.mem_of_getLast? hc)⟩
  nonempty := hne

theorem safe (h : Cleaned uc s) : ∀ c ∈ s, Urllib.isUnsafeByte c = false := by
  intro c hc
  rw [← Bool.not_eq_true]
  intro hunsafe
  obtain rfl := h.tidy.blanks c hc (unsafe_space hunsafe)
  cases hunsafe

theorem cons_word {word rest : Text} (hword : ∀ c ∈ word, uc.isSpace c = false) (hne : word ≠ [])
    (hrest : Cleaned uc rest) : Cleaned uc (word ++ ' ' :: rest) := by
  refine ⟨?_, ⟨?_, ?_⟩, by simp⟩
  · apply Tidy.join (Tidy.of_no_space hword) hrest.tidy
    · exact fun c hc => hword c (List.mem_of_getLast? hc)
    · exact hrest.bounded.1
  · intro c hc
    rw [List.head?_append_of_ne_nil _ hne] at hc
    exact hword c (List.mem_of_mem_head? hc)
  · intro c hc
    rw [List.getLast?_append_of_ne_nil _ (by simp), List.getLast?_cons_of_ne_nil hrest.nonempty] at hc
    exact hrest.bounded.2 c hc

theorem words (h : Cleaned uc s) :
    (∀ c ∈ s, uc.isSpace c = false) ∨
      ∃ word rest, s = word ++ ' ' :: rest ∧ (∀ c ∈ word, uc.isSpace c = false) ∧ word ≠ [] ∧
        Cleaned uc rest := by
  cases hfind : s.find? uc.isSpace with
  | none =>
      left
      simpa using hfind
  | some c =>
      right
      obtain ⟨hspace, word, rest, rfl, hword⟩ := List.find?_eq_some_iff_append.mp hfind
      obtain rfl := h.tidy.blanks c (by simp) hspace
      have hword' : ∀ d ∈ word, uc.isSpace d = false := by simpa using hword
      have hne : word ≠ [] := by
        rintro rfl
        have hfalse := h.bounded.1 ' ' rfl
        rw [hspace] at hfalse
        cases hfalse
      have hne' : rest ≠ [] := by
        rintro rfl
        have hfalse := h.bounded.2 ' ' (by simp)
        rw [hspace] at hfalse
        cases hfalse
      have hwithin : rest <:+: word ++ ' ' :: rest :=
        ((List.suffix_cons ' ' rest).trans (List.suffix_append word _)).isInfix
      refine ⟨word, rest, rfl, hword', hne, h.tidy.part hwithin, ⟨?_, ?_⟩, hne'⟩
      · intro d hd
        obtain ⟨-, hafter, -⟩ := List.isChain_append.mp h.tidy.single
        exact (List.isChain_cons.mp hafter).1 d hd hspace
      · intro d hd
        apply h.bounded.2 d
        rw [List.getLast?_append_of_ne_nil _ (by simp), List.getLast?_cons_of_ne_nil hne']
        exact hd

theorem cleanText (h : Cleaned env.unicode s) : LeadPipe.cleanText env (some s) = some s := by
  have hstrip : LeadPipe.strip env s = s := h.bounded.strip
  have hne : s.isEmpty = false := by simpa using h.nonempty
  unfold LeadPipe.cleanText
  rw [Option.bind_some, h.tidy.collapse (by simp), hstrip, Text.orNone, hne]
  rfl

end Cleaned

theorem cleanText_cleaned {env : Platform} {value : Option Text} {s : Text}
    (h : cleanText env value = some s) : Cleaned env.unicode s := by
  obtain ⟨v, -, hv⟩ := Option.bind_eq_some_iff.mp h
  obtain ⟨rfl, hne⟩ := Text.orNone_eq_some.mp hv
  have htidy : Tidy env.unicode (collapseSpace env.unicode.isSpace false v) :=
    (collapseSpace_tidy false v).1
  exact ⟨htidy.part (Text.strip_within _ _), Text.strip_bounded _ _, hne⟩

theorem collapseSpace_blank {space : Char → Bool} {s : Text} (h : ∃ c ∈ s, space c = true) :
    ' ' ∈ collapseSpace space false s := by
  induction s with
  | nil => simp at h
  | cons c cs ih =>
      unfold collapseSpace
      cases hspace : space c with
      | true => simp
      | false =>
          have hrest : ∃ d ∈ cs, space d = true := by simpa [hspace] using h
          simp [ih hrest]

theorem collapseSpace_last {space : Char → Bool} {c : Char} (hc : space c = false) (inRun : Bool)
    {s : Text} (h : s.getLast? = some c) : (collapseSpace space inRun s).getLast? = some c := by
  induction s generalizing inRun with
  | nil => cases h
  | cons d ds ih =>
      cases ds with
      | nil =>
          obtain rfl : d = c := by simpa using h
          simp [collapseSpace, hc]
      | cons e es =>
          have hlast : (e :: es).getLast? = some c := by
            rwa [List.getLast?_cons_of_ne_nil (by simp)] at h
          have hrest (inRun : Bool) := ih inRun hlast
          have hcons (d : Char) (inRun : Bool) :
              (d :: collapseSpace space inRun (e :: es)).getLast? = some c := by
            rw [List.getLast?_cons_of_ne_nil]
            · exact hrest inRun
            · intro hnil
              have hnone := hrest inRun
              rw [hnil] at hnone
              cases hnone
          unfold collapseSpace
          split
          · split
            · exact hrest true
            · exact hcons ' ' true
          · exact hcons d false

theorem no_space_of_cleaned {env : Platform} {s t : Text}
    (hbounded : Text.Bounded env.unicode.isSpace s) (ht : cleanText env (some s) = some t)
    (hblank : ' ' ∉ t) : ∀ c ∈ s, env.unicode.isSpace c = false := by
  have hcollapsed : Text.Bounded env.unicode.isSpace
      (collapseSpace env.unicode.isSpace false s) := by
    constructor
    · intro c hc
      cases s with
      | nil => cases hc
      | cons d ds =>
          have hd := hbounded.1 d rfl
          unfold collapseSpace at hc
          simp only [hd, Bool.false_eq_true, if_false, List.head?_cons, Option.some.injEq] at hc
          rwa [← hc]
    · intro c hc
      cases hlast : s.getLast? with
      | none =>
          rw [List.getLast?_eq_none_iff.mp hlast] at hc
          cases hc
      | some d =>
          have hd := hbounded.2 d hlast
          rw [collapseSpace_last hd false hlast] at hc
          obtain rfl := Option.some.inj hc
          exact hd
  have hstrip : strip env (collapseSpace env.unicode.isSpace false s) = _ := hcollapsed.strip
  rw [cleanText, Option.bind_some, hstrip, Text.orNone] at ht
  split at ht
  · cases ht
  · obtain rfl := Option.some.inj ht
    intro c hc
    by_contra hspace
    rw [Bool.not_eq_false] at hspace
    exact hblank (collapseSpace_blank ⟨c, hc, hspace⟩)

namespace Unicode.LowersText

variable {uc : Unicode} {s : Text}

theorem word (h : uc.LowersText) (hs : ∀ c ∈ s, uc.isSpace c = false) :
    ∀ c ∈ uc.lower s, uc.isSpace c = false := by
  intro c hc
  by_contra hspace
  rw [Bool.not_eq_false] at hspace
  rw [hs c (h.fresh s c hc (.inl hspace))] at hspace
  cases hspace

theorem cleaned (h : uc.LowersText) (hs : Cleaned uc s) : Cleaned uc (uc.lower s) := by
  induction hn : s.length using Nat.strong_induction_on generalizing s with
  | _ n ih =>
      rcases hs.words with hword | ⟨word, rest, rfl, hword, hne, hrest⟩
      · exact .of_word (h.word hword) (h.nonempty s hs.nonempty)
      · have hshorter : rest.length < n := by
          rw [← hn, List.length_append, List.length_cons]
          omega
        rw [h.blank word ' ' rest (space_blank uc)]
        exact .cons_word (h.word hword) (h.nonempty word hne) (ih rest.length hshorter hrest rfl)

end Unicode.LowersText

theorem Unicode.ascii_lowersText : Unicode.ascii.LowersText where
  idem s := by
    have hmap : (s.map Char.toLower).map Char.toLower = s.map Char.toLower := by
      rw [List.map_map]
      exact List.map_congr_left fun c _ => Text.toLower_toLower c
    exact hmap
  part s t hpart hs := by
    have hfixed : ∀ c ∈ s, c.toLower = c := by
      have hmap : s.map Char.toLower = s.map id := by
        rw [List.map_id]
        exact hs
      exact List.map_inj_left.mp hmap
    have hmap : t.map Char.toLower = t.map id :=
      List.map_congr_left fun c hc => hfixed c (hpart.subset hc)
    rw [List.map_id] at hmap
    exact hmap
  blank a c b hspace := by
    have hlower : c.toLower = c := by
      apply Text.toLower_of_not_upper
      simp only [Unicode.ascii, Text.asciiSpace, Bool.or_eq_true, Bool.and_eq_true,
        decide_eq_true_eq] at hspace
      rw [Text.isUpper_iff]
      omega
    have hmap : (a ++ c :: b).map Char.toLower =
        a.map Char.toLower ++ c :: b.map Char.toLower := by
      rw [List.map_append, List.map_cons, hlower]
    exact hmap
  fresh s c hc hplain := by
    obtain ⟨d, hd, hdc⟩ := List.mem_map.mp hc
    by_cases hupper : d.isUpper = true
    · -- a lowered letter is a letter and no space
      have hlower := Text.isLower_toLower hupper
      rw [hdc] at hlower
      have halpha : c.isAlpha = true := Text.isAlpha_iff.mpr (.inr hlower)
      rw [Text.isLower_iff] at hlower
      rcases hplain with hspace | ⟨-, hletter⟩
      · simp only [Unicode.ascii, Text.asciiSpace, Bool.or_eq_true, Bool.and_eq_true,
          decide_eq_true_eq] at hspace
        omega
      · rw [halpha] at hletter
        cases hletter
    · rw [Text.toLower_of_not_upper hupper] at hdc
      rwa [← hdc]
  nonempty s hs := by
    have hne : s.map Char.toLower ≠ [] := by simpa using hs
    exact hne

theorem Unicode.ascii_lowersFront : Unicode.ascii.LowersFront := by
  intro a s _
  have hlower : Unicode.ascii.lower (a ++ s) = a.map Char.toLower ++ s.map Char.toLower :=
    List.map_append
  rw [hlower]
  exact List.prefix_append _ _

end LeadPipe
