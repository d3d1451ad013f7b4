import LeadPipe.Normalization.Tidy

/-!
# Spellings of an address

`normalize_email` takes one `mailto:` off, then the angle brackets at the ends, and lowers what
is left. The link has to be spelled in lower case and stand outside the brackets to be seen.
-/

namespace LeadPipe

variable (env : Platform)

def isAngle (c : Char) : Bool := c == '<' || c == '>'

/-- The text of an address without the link and the brackets it was written in. -/
def bareEmail (text : Text) : Text :=
  strip env (Text.strip isAngle (strip env (Text.removePrefix "mailto:".toList text)))

theorem normalizeEmail_eq (value : Option Text) :
    normalizeEmail env value =
      (cleanText env value).bind fun text => Text.orNone (env.unicode.lower (bareEmail env text)) :=
  rfl

variable {env}

theorem bareEmail_within (text : Text) : bareEmail env text <:+: text :=
  (Text.strip_within _ _).trans <| (Text.strip_within _ _).trans <|
    (Text.strip_within _ _).trans (Text.removePrefix_within _ _)

theorem bareEmail_eq_self {e : Text} (hbounded : Text.Bounded env.unicode.isSpace e) :
    bareEmail env e = e ↔ Text.startsWith "mailto:".toList e = false ∧ Text.Bounded isAngle e := by
  rw [← Text.strip_eq_self, ← Text.removePrefix_eq_self (by decide : "mailto:".toList ≠ [])]
  have hstrip : strip env e = e := hbounded.strip
  constructor
  · intro hsame
    -- every stage is as long as the text, so it is the text
    have hlong : e <:+: Text.removePrefix "mailto:".toList e := by
      conv_lhs => rw [← hsame]
      exact (Text.strip_within _ _).trans ((Text.strip_within _ _).trans (Text.strip_within _ _))
    have hlonger := (Text.removePrefix_within "mailto:".toList e).eq_of_length_le hlong.length_le
    refine ⟨hlonger, ?_⟩
    unfold bareEmail at hsame
    rw [hlonger, hstrip] at hsame
    have hlong' : e <:+: Text.strip isAngle e := by
      conv_lhs => rw [← hsame]
      exact Text.strip_within _ _
    exact (Text.strip_within isAngle e).eq_of_length_le hlong'.length_le
  · rintro ⟨hlonger, hangle⟩
    unfold bareEmail
    rw [hlonger, hstrip, hangle, hstrip]

theorem lower_nil (uc : Unicode) : uc.lower [] = [] := uc.lower_ascii [] rfl

theorem normalizeEmail_some (huc : env.unicode.LowersText) {value : Option Text} {e : Text}
    (h : normalizeEmail env value = some e) :
    Cleaned env.unicode e ∧ env.unicode.lower e = e := by
  rw [normalizeEmail_eq] at h
  obtain ⟨text, htext, h⟩ := Option.bind_eq_some_iff.mp h
  obtain ⟨rfl, hne⟩ := Text.orNone_eq_some.mp h
  refine ⟨huc.cleaned ⟨?_, Text.strip_bounded _ _, ?_⟩, huc.idem _⟩
  · exact (cleanText_cleaned htext).tidy.part (bareEmail_within text)
  · intro hempty
    rw [hempty, lower_nil] at hne
    exact hne rfl

/-- One text with the case of some letters changed. -/
def SameLetters (s t : Text) : Prop := s.map Char.toLower = t.map Char.toLower

namespace Text

variable {p : Char → Bool} {s t : Text}

theorem lstrip_lower (h : ∀ c ∈ s, p c.toLower = p c) :
    lstrip p (s.map Char.toLower) = (lstrip p s).map Char.toLower := by
  induction s with
  | nil => rfl
  | cons c s ih =>
      have hc := h c List.mem_cons_self
      have hs := ih fun d hd => h d (List.mem_cons_of_mem _ hd)
      unfold lstrip at hs ⊢
      by_cases hp : p c = true
      · rw [List.map_cons, List.dropWhile_cons_of_pos (hc.trans hp), List.dropWhile_cons_of_pos hp, hs]
      · rw [List.map_cons, List.dropWhile_cons_of_neg (by rwa [hc]), List.dropWhile_cons_of_neg hp,
          List.map_cons]

theorem rstrip_eq_lstrip (p : Char → Bool) (s : Text) :
    rstrip p s = (lstrip p s.reverse).reverse :=
  rfl

theorem rstrip_lower (h : ∀ c ∈ s, p c.toLower = p c) :
    rstrip p (s.map Char.toLower) = (rstrip p s).map Char.toLower := by
  have hrev : ∀ c ∈ s.reverse, p c.toLower = p c := fun c hc => h c (List.mem_reverse.mp hc)
  rw [rstrip_eq_lstrip, rstrip_eq_lstrip, ← List.map_reverse, lstrip_lower hrev, List.map_reverse]

theorem strip_lower (h : ∀ c ∈ s, p c.toLower = p c) :
    strip p (s.map Char.toLower) = (strip p s).map Char.toLower := by
  have hfirst : ∀ c ∈ lstrip p s, p c.toLower = p c :=
    fun c hc => h c ((lstrip_within p s).subset hc)
  unfold strip
  rw [lstrip_lower h, rstrip_lower hfirst]

theorem rstrip_append_bounded (hne : s ≠ []) (h : Bounded p s) (t : Text) :
    rstrip p (s ++ t) = s ++ rstrip p t := by
  have hkept : rstrip p s = s := by
    refine List.rdropWhile_eq_self_iff.mpr fun _ => ?_
    simpa using h.2 _ (List.getLast?_eq_some_getLast hne)
  have hempty : (s.reverse.dropWhile p).reverse = s := hkept
  unfold rstrip List.rdropWhile
  rw [List.reverse_append, List.dropWhile_append]
  split
  · rename_i hall
    rw [List.isEmpty_iff.mp hall, hempty, List.reverse_nil, List.append_nil]
  · rw [List.reverse_append, List.reverse_reverse]

theorem strip_append_bounded (hne : s ≠ []) (h : Bounded p s) (t : Text) :
    strip p (s ++ t) = s ++ rstrip p t := by
  obtain ⟨c, cs, rfl⟩ := List.exists_cons_of_ne_nil hne
  have hfirst : lstrip p (c :: cs ++ t) = c :: cs ++ t := by
    apply List.dropWhile_cons_of_neg
    simp [h.1 c rfl]
  unfold strip
  rw [hfirst, rstrip_append_bounded hne h]

theorem rstrip_suffix (h : s <:+ t) : rstrip p s <:+ rstrip p t := by
  obtain ⟨front, rfl⟩ := h
  unfold rstrip List.rdropWhile
  rw [List.reverse_append, List.dropWhile_append, List.reverse_suffix]
  split
  · rename_i hall
    rw [List.isEmpty_iff.mp hall]
    exact List.nil_prefix
  · exact List.prefix_append _ _

theorem strip_suffix (h : s <:+ t) : strip p s <:+ rstrip p t :=
  rstrip_suffix ((List.dropWhile_suffix p).trans h)

theorem Bounded.of_lower (h : ∀ c ∈ s, p c.toLower = p c) (hs : Bounded p (s.map Char.toLower)) :
    Bounded p s := by
  constructor
  · intro c hc
    have hfirst := hs.1 c.toLower (by rw [List.head?_map, hc]; rfl)
    rwa [h c (List.mem_of_mem_head? hc)] at hfirst
  · intro c hc
    have hlast := hs.2 c.toLower (by rw [List.getLast?_map, hc]; rfl)
    rwa [h c (List.mem_of_getLast? hc)] at hlast

theorem isAscii_within (h : t.isAscii = true) (hs : s <:+: t) : s.isAscii = true :=
  isAscii_iff.mpr fun c hc => isAscii_iff.mp h c (hs.subset hc)

theorem toLower_ascii_iff {c : Char} : c.toLower.toNat < 128 ↔ c.toNat < 128 := by
  by_cases hupper : c.isUpper = true
  · have hcode := isUpper_iff.mp hupper
    have hlower := isLower_iff.mp (isLower_toLower hupper)
    omega
  · rw [toLower_of_not_upper hupper]

theorem asciiSpace_toLower (c : Char) : asciiSpace c.toLower = asciiSpace c := by
  by_cases hupper : c.isUpper = true
  · have hcode := isUpper_iff.mp hupper
    have hlower := isLower_iff.mp (isLower_toLower hupper)
    have hnot : ∀ d : Char, 65 ≤ d.toNat → asciiSpace d = false := by
      intro d hd
      simp only [asciiSpace, Bool.or_eq_false_iff, Bool.and_eq_false_iff, decide_eq_false_iff_not]
      omega
    rw [hnot c hcode.1, hnot c.toLower (by omega)]
  · rw [toLower_of_not_upper hupper]

end Text

theorem SameLetters.isAscii {s t : Text} (h : SameLetters s t) (hs : s.isAscii = true) :
    t.isAscii = true := by
  refine Text.isAscii_iff.mpr fun c hc => ?_
  have hlower : c.toLower ∈ s.map Char.toLower := by
    rw [h]
    exact List.mem_map_of_mem hc
  obtain ⟨d, hd, hdc⟩ := List.mem_map.mp hlower
  rw [← Text.toLower_ascii_iff, ← hdc, Text.toLower_ascii_iff]
  exact Text.isAscii_iff.mp hs d hd

theorem isSpace_toLower (uc : Unicode) {c : Char} (h : c.toNat < 128) :
    uc.isSpace c.toLower = uc.isSpace c := by
  rw [uc.isSpace_ascii c h, uc.isSpace_ascii _ (Text.toLower_ascii_iff.mpr h),
    Text.asciiSpace_toLower]

theorem isAngle_toLower (c : Char) : isAngle c.toLower = isAngle c := by
  by_cases hupper : c.isUpper = true
  · have hcode := Text.isUpper_iff.mp hupper
    have hlower := Text.isLower_iff.mp (Text.isLower_toLower hupper)
    have hnot : ∀ d : Char, 65 ≤ d.toNat → isAngle d = false := by
      intro d hd
      simp only [isAngle, Bool.or_eq_false_iff, beq_eq_false_iff_ne]
      constructor
      · rintro rfl
        exact absurd hd (by decide)
      · rintro rfl
        exact absurd hd (by decide)
    rw [hnot c hcode.1, hnot c.toLower (by omega)]
  · rw [Text.toLower_of_not_upper hupper]

theorem collapseSpace_lower {space : Char → Bool} {s : Text}
    (h : ∀ c ∈ s, space c.toLower = space c) (inRun : Bool) :
    collapseSpace space inRun (s.map Char.toLower) =
      (collapseSpace space inRun s).map Char.toLower := by
  induction s generalizing inRun with
  | nil => rfl
  | cons c s ih =>
      have hc := h c List.mem_cons_self
      have hs := ih fun d hd => h d (List.mem_cons_of_mem _ hd)
      rw [List.map_cons, collapseSpace, collapseSpace, hc]
      split
      · split
        · exact hs true
        · rw [List.map_cons]
          exact congrArg _ (hs true)
      · rw [List.map_cons]
        exact congrArg _ (hs false)

theorem collapseSpace_ascii {space : Char → Bool} {s : Text} (h : s.isAscii = true)
    (inRun : Bool) : (collapseSpace space inRun s).isAscii = true := by
  induction s generalizing inRun with
  | nil => rfl
  | cons c s ih =>
      have hc := Text.isAscii_iff.mp h c List.mem_cons_self
      have hs := ih (Text.isAscii_within h (List.suffix_cons c s).isInfix)
      unfold collapseSpace
      split
      · split
        · exact hs true
        · simpa [Text.isAscii] using hs true
      · simpa [Text.isAscii, hc] using hs false

section Reading

variable (env : Platform)

/-- The text `clean_text` keeps, empty when it keeps none. -/
def cleaned (s : Text) : Text := strip env (collapseSpace env.unicode.isSpace false s)

/-- The link is spelled so that it is taken off. -/
def linkSpelled (s : Text) : Bool := Text.startsWith "mailto:".toList (cleaned env s)

def trimmed (s : Text) : Text := strip env (Text.strip isAngle (strip env s))

def trimmedEnd (s : Text) : Text :=
  Text.rstrip env.unicode.isSpace (Text.rstrip isAngle (Text.rstrip env.unicode.isSpace s))

variable {env}

theorem cleanText_eq (s : Text) : cleanText env (some s) = Text.orNone (cleaned env s) := rfl

theorem normalizeEmail_cleaned (s : Text) :
    normalizeEmail env (some s) =
      Text.orNone (env.unicode.lower (bareEmail env (cleaned env s))) := by
  rw [normalizeEmail_eq, cleanText_eq, Text.orNone]
  split
  · rename_i hempty
    rw [List.isEmpty_iff.mp hempty, Option.bind_none]
    have hbare : bareEmail env [] = [] := rfl
    rw [hbare, lower_nil]
    rfl
  · rfl

variable {s t : Text}

theorem cleaned_ascii (hs : s.isAscii = true) : (cleaned env s).isAscii = true :=
  Text.isAscii_within (collapseSpace_ascii hs false) (Text.strip_within _ _)

theorem space_caseless (hs : s.isAscii = true) :
    ∀ c ∈ s, env.unicode.isSpace c.toLower = env.unicode.isSpace c :=
  fun c hc => isSpace_toLower env.unicode (Text.isAscii_iff.mp hs c hc)

theorem strip_lower (hs : s.isAscii = true) :
    strip env (s.map Char.toLower) = (strip env s).map Char.toLower :=
  Text.strip_lower (space_caseless hs)

theorem cleaned_sameLetters (hs : s.isAscii = true) (h : SameLetters s t) :
    SameLetters (cleaned env s) (cleaned env t) := by
  have hlower {x : Text} (hx : x.isAscii = true) :
      (cleaned env x).map Char.toLower = cleaned env (x.map Char.toLower) := by
    unfold cleaned
    rw [← strip_lower (collapseSpace_ascii hx false), collapseSpace_lower (space_caseless hx)]
  unfold SameLetters
  rw [hlower hs, hlower (h.isAscii hs), h]

theorem trimmed_lower (hs : s.isAscii = true) :
    (trimmed env s).map Char.toLower = trimmed env (s.map Char.toLower) := by
  have hfirst : (strip env s).isAscii = true := Text.isAscii_within hs (Text.strip_within _ _)
  have hangles : Text.isAscii (Text.strip isAngle (strip env s)) = true :=
    Text.isAscii_within hfirst (Text.strip_within _ _)
  unfold trimmed
  rw [← strip_lower hangles, ← Text.strip_lower fun c _ => isAngle_toLower c, strip_lower hs]

theorem bareEmail_of_link (hs : Text.startsWith "mailto:".toList s = true) :
    bareEmail env s = trimmed env (s.drop 7) := by
  unfold bareEmail Text.removePrefix
  rw [if_pos hs]
  rfl

theorem bareEmail_of_no_link (hs : Text.startsWith "mailto:".toList s = false) :
    bareEmail env s = trimmed env s := by
  unfold bareEmail
  rw [(Text.removePrefix_eq_self (by decide)).mpr hs]
  rfl

theorem trimmed_link {link rest : Text} (hlink : link.map Char.toLower = "mailto:".toList) :
    trimmed env (link ++ rest) = link ++ trimmedEnd env rest := by
  have hne : link ≠ [] := by
    rintro rfl
    cases hlink
  have hascii : link.isAscii = true :=
    SameLetters.isAscii (s := "mailto:".toList) (Eq.trans (by decide) hlink.symm) rfl
  have hspace : Text.Bounded env.unicode.isSpace link := by
    refine Text.Bounded.of_lower (space_caseless hascii) ?_
    rw [hlink]
    constructor
    · rintro c hc
      obtain rfl : 'm' = c := Option.some.inj hc
      exact (env.unicode.isSpace_ascii _ (by decide)).trans (by decide)
    · rintro c hc
      obtain rfl : ':' = c := Option.some.inj hc
      exact (env.unicode.isSpace_ascii _ (by decide)).trans (by decide)
  have hangle : Text.Bounded isAngle link := by
    refine Text.Bounded.of_lower (fun c _ => isAngle_toLower c) ?_
    rw [hlink]
    constructor
    · rintro c hc
      obtain rfl : 'm' = c := Option.some.inj hc
      decide
    · rintro c hc
      obtain rfl : ':' = c := Option.some.inj hc
      decide
  unfold trimmed trimmedEnd strip
  rw [Text.strip_append_bounded hne hspace, Text.strip_append_bounded hne hangle,
    Text.strip_append_bounded hne hspace]

variable (env) in
theorem trimmed_length_le (s : Text) : (trimmed env s).length ≤ (trimmedEnd env s).length := by
  have hfirst : strip env s <:+ Text.rstrip env.unicode.isSpace s := Text.strip_suffix List.suffix_rfl
  have hangles : Text.strip isAngle (strip env s) <:+
      Text.rstrip isAngle (Text.rstrip env.unicode.isSpace s) := Text.strip_suffix hfirst
  have hlast : trimmed env s <:+ trimmedEnd env s := Text.strip_suffix hangles
  exact hlast.length_le

theorem trimmedEnd_lower (hs : s.isAscii = true) :
    (trimmedEnd env s).map Char.toLower = trimmedEnd env (s.map Char.toLower) := by
  have hfirst : Text.isAscii (Text.rstrip env.unicode.isSpace s) = true :=
    Text.isAscii_within hs (Text.rstrip_within _ _)
  have hangles : Text.isAscii (Text.rstrip isAngle (Text.rstrip env.unicode.isSpace s)) = true :=
    Text.isAscii_within hfirst (Text.rstrip_within _ _)
  unfold trimmedEnd
  rw [← Text.rstrip_lower (space_caseless hangles),
    ← Text.rstrip_lower fun c _ => isAngle_toLower c, Text.rstrip_lower (space_caseless hs)]

variable (env) in
theorem bareEmail_length_lt (hs : s.isAscii = true) (h : SameLetters s t)
    (hlink : Text.startsWith "mailto:".toList s = true)
    (hno : Text.startsWith "mailto:".toList t = false) :
    (bareEmail env s).length < (bareEmail env t).length := by
  obtain ⟨rest, rfl⟩ := List.isPrefixOf_iff_prefix.mp hlink
  have hfront : (t.take 7).map Char.toLower = "mailto:".toList := by
    rw [List.map_take, ← h, List.map_append]
    rfl
  have hback : SameLetters rest (t.drop 7) := by
    have hdrop := congrArg (List.drop 7) h
    rwa [← List.map_drop, ← List.map_drop] at hdrop
  have hrest : Text.isAscii rest = true :=
    Text.isAscii_within hs (List.suffix_append _ _).isInfix
  have hends : (trimmedEnd env rest).length = (trimmedEnd env (t.drop 7)).length := by
    have hsame : (trimmedEnd env rest).map Char.toLower =
        (trimmedEnd env (t.drop 7)).map Char.toLower := by
      rw [trimmedEnd_lower hrest, trimmedEnd_lower (hback.isAscii hrest), hback]
    simpa using congrArg List.length hsame
  have hseven : (t.take 7).length = 7 := by
    simpa using congrArg List.length hfront
  have hbare : bareEmail env t = t.take 7 ++ trimmedEnd env (t.drop 7) := by
    rw [bareEmail_of_no_link hno, ← trimmed_link hfront, List.take_append_drop]
  have hread : bareEmail env ("mailto:".toList ++ rest) = trimmed env rest :=
    bareEmail_of_link hlink
  have hle := trimmed_length_le env rest
  rw [hread, hbare, List.length_append, hseven]
  omega

theorem bareEmail_sameLetters (hs : s.isAscii = true) (h : SameLetters s t)
    (hlink : Text.startsWith "mailto:".toList s = Text.startsWith "mailto:".toList t) :
    SameLetters (bareEmail env s) (bareEmail env t) := by
  have htrim {x y : Text} (hx : x.isAscii = true) (hxy : SameLetters x y) :
      SameLetters (trimmed env x) (trimmed env y) := by
    unfold SameLetters
    rw [trimmed_lower hx, trimmed_lower (hxy.isAscii hx), hxy]
  cases hstart : Text.startsWith "mailto:".toList s with
  | true =>
      rw [bareEmail_of_link hstart, bareEmail_of_link (hlink ▸ hstart)]
      refine htrim (Text.isAscii_within hs (List.drop_suffix 7 s).isInfix) ?_
      unfold SameLetters
      rw [List.map_drop, List.map_drop, h]
  | false =>
      rw [bareEmail_of_no_link hstart, bareEmail_of_no_link (hlink ▸ hstart)]
      exact htrim hs h

theorem lower_bareEmail (hs : s.isAscii = true) :
    env.unicode.lower (bareEmail env s) = (bareEmail env s).map Char.toLower :=
  env.unicode.lower_ascii _ (Text.isAscii_within hs (bareEmail_within s))

/-- Two spellings are one address unless the link is taken off one of them only. -/
theorem normalizeEmail_sameLetters_iff (hs : s.isAscii = true) (h : SameLetters s t) :
    normalizeEmail env (some s) = normalizeEmail env (some t) ↔
      linkSpelled env s = linkSpelled env t := by
  have hclean : SameLetters (cleaned env s) (cleaned env t) := cleaned_sameLetters hs h
  have hascii : (cleaned env s).isAscii = true := cleaned_ascii hs
  have hascii' : (cleaned env t).isAscii = true := cleaned_ascii (h.isAscii hs)
  rw [normalizeEmail_cleaned, normalizeEmail_cleaned, lower_bareEmail hascii,
    lower_bareEmail hascii']
  -- the results are as long as what was read
  have hlength {x y : Text} (hxy : Text.orNone (x.map Char.toLower) =
      Text.orNone (y.map Char.toLower)) : x.length = y.length := by
    have hsame : x.map Char.toLower = y.map Char.toLower := by
      cases x <;> cases y <;> simp_all [Text.orNone]
    simpa using congrArg List.length hsame
  constructor
  · intro hsame
    cases hlink : linkSpelled env s with
    | true =>
        cases hlink' : linkSpelled env t with
        | true => rfl
        | false =>
            have hlt := bareEmail_length_lt env hascii hclean hlink hlink'
            exact absurd (hlength hsame) hlt.ne
    | false =>
        cases hlink' : linkSpelled env t with
        | true =>
            have hlt := bareEmail_length_lt env hascii' hclean.symm hlink' hlink
            exact absurd (hlength hsame) hlt.ne'
        | false => rfl
  · intro hlink
    have hbare : SameLetters (bareEmail env (cleaned env s)) (bareEmail env (cleaned env t)) :=
      bareEmail_sameLetters hascii hclean hlink
    rw [hbare]

end Reading

/-- How an address is written: with or without a link and angle brackets. -/
inductive Wrapping where
  | bare
  | angles
  | link
  | linkInAngles
  | anglesInLink
  deriving DecidableEq, Repr

namespace Wrapping

def front : Wrapping → Text
  | bare => []
  | angles => "<".toList
  | link => "mailto:".toList
  | linkInAngles => "<mailto:".toList
  | anglesInLink => "mailto:<".toList

def back : Wrapping → Text
  | bare | link => []
  | angles | linkInAngles | anglesInLink => ">".toList

def write (wrapping : Wrapping) (a : Text) : Text := wrapping.front ++ a ++ wrapping.back

theorem marks_noSpace (wrapping : Wrapping) :
    ∀ c ∈ wrapping.front ++ wrapping.back, c.toNat < 128 ∧ Text.asciiSpace c = false := by
  cases wrapping <;> exact Text.forall_of_all (by decide)

end Wrapping

/-- An address that has nothing to take off. -/
structure PlainAddress (env : Platform) (a : Text) : Prop where
  nonempty : a ≠ []
  ascii : a.isAscii = true
  noSpace : ∀ c ∈ a, env.unicode.isSpace c = false
  noAngle : ∀ c ∈ a, isAngle c = false
  noLink : Text.startsWith "mailto:".toList a = false

section Wrapped

variable {env : Platform} {space : Char → Bool} {s before after word : Text}

theorem collapseSpace_spaces (h : ∀ c ∈ s, space c = true) (inRun : Bool) :
    ∀ c ∈ collapseSpace space inRun s, c = ' ' := by
  induction s generalizing inRun with
  | nil => simp [collapseSpace]
  | cons c s ih =>
      have hs (inRun : Bool) := ih (fun d hd => h d (List.mem_cons_of_mem _ hd)) inRun
      rw [collapseSpace, if_pos (h c List.mem_cons_self)]
      split
      · exact hs true
      · intro d hd
        rcases List.mem_cons.mp hd with rfl | hrest
        · rfl
        · exact hs true d hrest

theorem collapseSpace_word (h : ∀ c ∈ word, space c = false) (hne : word ≠ []) (inRun : Bool)
    (s : Text) : collapseSpace space inRun (word ++ s) = word ++ collapseSpace space false s := by
  induction word generalizing inRun with
  | nil => exact absurd rfl hne
  | cons c word ih =>
      have hc := h c List.mem_cons_self
      rw [List.cons_append, collapseSpace, hc, if_neg Bool.false_ne_true, List.cons_append]
      cases word with
      | nil => rfl
      | cons d word =>
          rw [ih (fun e he => h e (List.mem_cons_of_mem _ he)) (by simp) false]

theorem collapseSpace_append_spaces (h : ∀ c ∈ before, space c = true) (inRun : Bool) (s : Text) :
    ∃ blanks inRun', (∀ c ∈ blanks, c = ' ') ∧
      collapseSpace space inRun (before ++ s) = blanks ++ collapseSpace space inRun' s := by
  induction before generalizing inRun with
  | nil => exact ⟨[], inRun, by simp, rfl⟩
  | cons c before ih =>
      obtain ⟨blanks, inRun', hblanks, hrest⟩ :=
        ih (fun d hd => h d (List.mem_cons_of_mem _ hd)) true
      rw [List.cons_append, collapseSpace, if_pos (h c List.mem_cons_self), hrest]
      split
      · exact ⟨blanks, inRun', hblanks, rfl⟩
      · exact ⟨' ' :: blanks, inRun', by simpa using hblanks, rfl⟩

theorem cleaned_word (hbefore : ∀ c ∈ before, env.unicode.isSpace c = true)
    (hafter : ∀ c ∈ after, env.unicode.isSpace c = true)
    (hword : ∀ c ∈ word, env.unicode.isSpace c = false) (hne : word ≠ []) :
    cleaned env (before ++ word ++ after) = word := by
  obtain ⟨blanks, inRun, hblanks, hsplit⟩ :=
    collapseSpace_append_spaces hbefore false (word ++ after)
  have htail := collapseSpace_spaces hafter false
  have hbounded : Text.Bounded env.unicode.isSpace word :=
    ⟨fun c hc => hword c (List.mem_of_mem_head? hc), fun c hc => hword c (List.mem_of_getLast? hc)⟩
  have hspaces : ∀ c ∈ blanks, env.unicode.isSpace c = true := by
    intro c hc
    rw [hblanks c hc]
    exact space_blank _
  have hfirst : Text.lstrip env.unicode.isSpace
      (blanks ++ (word ++ collapseSpace env.unicode.isSpace false after)) =
      word ++ collapseSpace env.unicode.isSpace false after := by
    obtain ⟨c, cs, rfl⟩ := List.exists_cons_of_ne_nil hne
    unfold Text.lstrip
    rw [List.dropWhile_append_of_pos hspaces, List.cons_append, List.dropWhile_cons_of_neg]
    simp [hword c List.mem_cons_self]
  have hlast : Text.rstrip env.unicode.isSpace
      (collapseSpace env.unicode.isSpace false after) = [] := by
    unfold Text.rstrip
    rw [List.rdropWhile_eq_nil_iff]
    intro c hc
    rw [htail c hc]
    exact space_blank _
  unfold cleaned strip Text.strip
  rw [List.append_assoc, hsplit, collapseSpace_word hword hne, hfirst,
    Text.rstrip_append_bounded hne hbounded, hlast, List.append_nil]

end Wrapped

namespace PlainAddress

variable {env : Platform} {a : Text}

theorem angle_bounded (h : PlainAddress env a) : Text.Bounded isAngle a :=
  ⟨fun c hc => h.noAngle c (List.mem_of_mem_head? hc),
    fun c hc => h.noAngle c (List.mem_of_getLast? hc)⟩

theorem write_noSpace (h : PlainAddress env a) (wrapping : Wrapping) :
    ∀ c ∈ wrapping.write a, env.unicode.isSpace c = false := by
  intro c hc
  have hmark (hin : c ∈ wrapping.front ++ wrapping.back) : env.unicode.isSpace c = false := by
    obtain ⟨hascii, hspace⟩ := wrapping.marks_noSpace c hin
    rw [env.unicode.isSpace_ascii c hascii, hspace]
  rcases List.mem_append.mp hc with hfirst | hback
  · rcases List.mem_append.mp hfirst with hfront | hin
    · exact hmark (List.mem_append_left _ hfront)
    · exact h.noSpace c hin
  · exact hmark (List.mem_append_right _ hback)

theorem write_ne_nil (h : PlainAddress env a) (wrapping : Wrapping) : wrapping.write a ≠ [] := by
  simp [Wrapping.write, h.nonempty]

theorem cleaned_write (h : PlainAddress env a) (wrapping : Wrapping) {before after : Text}
    (hbefore : ∀ c ∈ before, env.unicode.isSpace c = true)
    (hafter : ∀ c ∈ after, env.unicode.isSpace c = true) :
    cleaned env (before ++ wrapping.write a ++ after) = wrapping.write a :=
  cleaned_word hbefore hafter (h.write_noSpace wrapping) (h.write_ne_nil wrapping)

theorem trimmed_noSpace {s : Text} (h : ∀ c ∈ s, env.unicode.isSpace c = false) :
    trimmed env s = Text.strip isAngle s := by
  have hstrip {x : Text} (hx : x <:+: s) : strip env x = x :=
    Text.Bounded.strip ⟨fun c hc => h c (hx.subset (List.mem_of_mem_head? hc)),
      fun c hc => h c (hx.subset (List.mem_of_getLast? hc))⟩
  unfold trimmed
  rw [hstrip List.infix_rfl, hstrip (Text.strip_within _ _)]

theorem strip_angles (h : Text.Bounded isAngle a) (hne : a ≠ []) :
    Text.strip isAngle ('<' :: (a ++ ['>'])) = a := by
  have hfirst : Text.lstrip isAngle ('<' :: (a ++ ['>'])) = a ++ ['>'] := by
    obtain ⟨c, cs, rfl⟩ := List.exists_cons_of_ne_nil hne
    have hc := h.1 c rfl
    unfold Text.lstrip
    rw [List.dropWhile_cons_of_pos (by decide), List.cons_append,
      List.dropWhile_cons_of_neg (by simp [hc])]
  have hlast : Text.rstrip isAngle ['>'] = [] := by decide
  unfold Text.strip
  rw [hfirst, Text.rstrip_append_bounded hne h, hlast, List.append_nil]

theorem bareEmail_write (h : PlainAddress env a) (wrapping : Wrapping) :
    bareEmail env (wrapping.write a) =
      if wrapping = .linkInAngles then "mailto:".toList ++ a else a := by
  have hspace := h.write_noSpace wrapping
  have hdrop : ∀ c ∈ (wrapping.write a).drop 7, env.unicode.isSpace c = false :=
    fun c hc => hspace c (List.mem_of_mem_drop hc)
  have hback : a ++ [] = a := List.append_nil a
  cases wrapping with
  | bare =>
      have hwrite : Wrapping.bare.write a = a := hback
      rw [hwrite] at hspace ⊢
      rw [bareEmail_of_no_link h.noLink, trimmed_noSpace hspace]
      exact h.angle_bounded.strip
  | angles =>
      rw [bareEmail_of_no_link rfl, trimmed_noSpace hspace]
      exact strip_angles h.angle_bounded h.nonempty
  | link =>
      rw [bareEmail_of_link rfl, trimmed_noSpace hdrop]
      have hwrite : (Wrapping.link.write a).drop 7 = a := hback
      rw [hwrite]
      exact h.angle_bounded.strip
  | linkInAngles =>
      rw [bareEmail_of_no_link rfl, trimmed_noSpace hspace]
      refine strip_angles (a := "mailto:".toList ++ a) ⟨?_, fun c hc => ?_⟩ (by simp)
      · rintro c hc
        obtain rfl : 'm' = c := Option.some.inj hc
        decide
      · rw [List.getLast?_append_of_ne_nil _ h.nonempty] at hc
        exact h.angle_bounded.2 c hc
  | anglesInLink =>
      rw [bareEmail_of_link rfl, trimmed_noSpace hdrop]
      exact strip_angles h.angle_bounded h.nonempty

theorem normalizeEmail_write_iff (h : PlainAddress env a) (wrapping : Wrapping)
    {before after : Text} (hbefore : ∀ c ∈ before, env.unicode.isSpace c = true)
    (hafter : ∀ c ∈ after, env.unicode.isSpace c = true) :
    normalizeEmail env (some (before ++ wrapping.write a ++ after)) =
      some (a.map Char.toLower) ↔ wrapping ≠ .linkInAngles := by
  rw [normalizeEmail_cleaned, h.cleaned_write wrapping hbefore hafter, h.bareEmail_write wrapping]
  by_cases hkind : wrapping = .linkInAngles
  · have hascii : Text.isAscii ("mailto:".toList ++ a) = true := by
      simpa [Text.isAscii] using h.ascii
    rw [if_pos hkind, env.unicode.lower_ascii _ hascii]
    refine iff_of_false (fun hsame => ?_) (not_not_intro hkind)
    -- the link is still there
    have hlength := congrArg List.length (Option.some.inj hsame)
    simp at hlength
    omega
  · have hne : (a.map Char.toLower).isEmpty = false := by simpa using h.nonempty
    rw [if_neg hkind, env.unicode.lower_ascii a h.ascii, Text.orNone, hne]
    exact iff_of_true rfl hkind

end PlainAddress

/-- The case of the letters matters to the link only, and of the wrappings only the link inside
brackets is not read as the address in lower case. -/
theorem email_spelling_iff (env : Platform) :
    (∀ s t : Text, s.isAscii = true → SameLetters s t →
      (normalizeEmail env (some s) = normalizeEmail env (some t) ↔
        linkSpelled env s = linkSpelled env t)) ∧
    ∀ (a before after : Text) (wrapping : Wrapping), PlainAddress env a →
      (∀ c ∈ before, env.unicode.isSpace c = true) →
      (∀ c ∈ after, env.unicode.isSpace c = true) →
      (normalizeEmail env (some (before ++ wrapping.write a ++ after)) =
        some (a.map Char.toLower) ↔ wrapping ≠ .linkInAngles) :=
  ⟨fun _ _ hs h => normalizeEmail_sameLetters_iff hs h,
    fun _ _ _ wrapping h hbefore hafter => h.normalizeEmail_write_iff wrapping hbefore hafter⟩

theorem plainAddress_info : PlainAddress .ascii "Info@x.fi".toList where
  nonempty := by decide
  ascii := by decide
  noSpace := Text.forall_of_all (by decide)
  noAngle := Text.forall_of_all (by decide)
  noLink := by decide

theorem email_spelling_iff_info :
    (normalizeEmail .ascii (some "INFO@x.fi".toList) =
        normalizeEmail .ascii (some "info@x.fi".toList) ↔
      linkSpelled .ascii "INFO@x.fi".toList = linkSpelled .ascii "info@x.fi".toList) ∧
    (normalizeEmail .ascii (some (" ".toList ++ Wrapping.anglesInLink.write "Info@x.fi".toList ++
        "\t".toList)) = some ("Info@x.fi".toList.map Char.toLower) ↔
      Wrapping.anglesInLink ≠ .linkInAngles) :=
  ⟨(email_spelling_iff .ascii).1 _ _ (by decide) (by unfold SameLetters; decide),
    (email_spelling_iff .ascii).2 _ _ _ .anglesInLink plainAddress_info
      (Text.forall_of_all (by decide)) (Text.forall_of_all (by decide))⟩

/-- A link in capitals and a link in brackets are taken for a part of the address. -/
theorem email_spelling_matters :
    ¬∀ env : Platform,
      (∀ s t : Text, s.isAscii = true → SameLetters s t →
        normalizeEmail env (some s) = normalizeEmail env (some t)) ∧
      ∀ (a before after : Text) (wrapping : Wrapping), PlainAddress env a →
        (∀ c ∈ before, env.unicode.isSpace c = true) →
        (∀ c ∈ after, env.unicode.isSpace c = true) →
        normalizeEmail env (some (before ++ wrapping.write a ++ after)) =
          some (a.map Char.toLower) := by
  intro h
  have hsame := (h .ascii).1 "MAILTO:info@x.fi".toList "mailto:info@x.fi".toList (by decide)
    (by unfold SameLetters; decide)
  exact absurd hsame (by decide +kernel)

end LeadPipe
