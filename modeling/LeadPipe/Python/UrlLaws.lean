import Mathlib.Data.List.Infix
import LeadPipe.Python.Urllib

/-!
# Taking a web address apart and putting it together

What `urlsplit` returns, in terms of the stripped text, its scheme and its authority, and that
it returns the parts `urlunsplit` was given.
-/

namespace LeadPipe

namespace Text

theorem isUpper_iff {c : Char} : c.isUpper = true ↔ 65 ≤ c.toNat ∧ c.toNat ≤ 90 := by
  have hdef : c.isUpper = decide (c.val ≥ 'A'.val ∧ c.val ≤ 'Z'.val) := rfl
  rw [hdef, decide_eq_true_eq, ge_iff_le, UInt32.le_iff_toNat_le, UInt32.le_iff_toNat_le]
  exact Iff.rfl

theorem isLower_iff {c : Char} : c.isLower = true ↔ 97 ≤ c.toNat ∧ c.toNat ≤ 122 := by
  have hdef : c.isLower = (decide (c.val ≥ 'a'.val) && decide (c.val ≤ 'z'.val)) := rfl
  rw [hdef, Bool.and_eq_true, decide_eq_true_eq, decide_eq_true_eq, ge_iff_le,
    UInt32.le_iff_toNat_le, UInt32.le_iff_toNat_le]
  exact Iff.rfl

theorem isDigit_iff {c : Char} : c.isDigit = true ↔ 48 ≤ c.toNat ∧ c.toNat ≤ 57 := by
  have hdef : c.isDigit = (decide (c.val ≥ '0'.val) && decide (c.val ≤ '9'.val)) := rfl
  rw [hdef, Bool.and_eq_true, decide_eq_true_eq, decide_eq_true_eq, ge_iff_le,
    UInt32.le_iff_toNat_le, UInt32.le_iff_toNat_le]
  exact Iff.rfl

theorem isAlpha_iff {c : Char} : c.isAlpha = true ↔ c.isUpper = true ∨ c.isLower = true := by
  have hdef : c.isAlpha = (c.isUpper || c.isLower) := rfl
  rw [hdef, Bool.or_eq_true]

theorem isAlphanum_iff {c : Char} : c.isAlphanum = true ↔ c.isAlpha = true ∨ c.isDigit = true := by
  have hdef : c.isAlphanum = (c.isAlpha || c.isDigit) := rfl
  rw [hdef, Bool.or_eq_true]

theorem isAscii_iff {s : Text} : s.isAscii = true ↔ ∀ c ∈ s, c.toNat < 128 := by
  simp [isAscii]

theorem toLower_of_not_upper {c : Char} (h : ¬c.isUpper = true) : c.toLower = c :=
  dif_neg fun hrange => h (decide_eq_true hrange)

theorem isLower_toLower {c : Char} (h : c.isUpper = true) : c.toLower.isLower = true := by
  have hval : c.toLower.val = c.val + ('a'.val - 'A'.val) := by
    unfold Char.toLower
    rw [dif_pos (of_decide_eq_true h)]
  have hstep : ('a'.val - 'A'.val).toNat = 32 := rfl
  have hupper := isUpper_iff.mp h
  have hsum : c.toLower.toNat = c.toNat + 32 := by
    change c.toLower.val.toNat = c.val.toNat + 32
    change 65 ≤ c.val.toNat ∧ c.val.toNat ≤ 90 at hupper
    rw [hval, UInt32.toNat_add, hstep]
    omega
  rw [isLower_iff, hsum]
  omega

theorem not_upper_of_lower {c : Char} (h : c.isLower = true) : ¬c.isUpper = true := by
  rw [isLower_iff] at h
  rw [isUpper_iff]
  omega

theorem isAlpha_toLower (c : Char) : c.toLower.isAlpha = c.isAlpha := by
  by_cases h : c.isUpper = true
  · rw [isAlpha_iff.mpr (.inr (isLower_toLower h)), isAlpha_iff.mpr (.inl h)]
  · rw [toLower_of_not_upper h]

theorem toLower_toLower (c : Char) : c.toLower.toLower = c.toLower := by
  by_cases h : c.isUpper = true
  · exact toLower_of_not_upper (not_upper_of_lower (isLower_toLower h))
  · rw [toLower_of_not_upper h, toLower_of_not_upper h]

theorem partition_append {sep : Char} {before : Text} (h : sep ∉ before) (after : Text) :
    partition sep (before ++ sep :: after) = (before, true, after) := by
  have hne : ∀ c ∈ before, (c != sep) = true := by
    intro c hc
    exact bne_iff_ne.mpr fun heq => h (heq ▸ hc)
  unfold partition
  rw [List.dropWhile_append_of_pos hne, List.takeWhile_append_of_pos hne]
  simp

theorem partition_none {sep : Char} {s : Text} (h : sep ∉ s) :
    partition sep s = (s, false, []) := by
  have hne : ∀ c ∈ s, (c != sep) = true := by
    intro c hc
    exact bne_iff_ne.mpr fun heq => h (heq ▸ hc)
  unfold partition
  rw [List.dropWhile_eq_nil_iff.mpr hne]

theorem rpartition_none {sep : Char} {s : Text} (h : sep ∉ s) :
    rpartition sep s = ([], false, s) := by
  unfold rpartition
  rw [partition_none (by simpa using h)]

theorem partition_cases (sep : Char) (s : Text) :
    (sep ∉ s ∧ partition sep s = (s, false, [])) ∨
      ∃ before after, sep ∉ before ∧ s = before ++ sep :: after ∧
        partition sep s = (before, true, after) := by
  by_cases h : sep ∈ s
  · right
    obtain ⟨before, after, rfl, hbefore⟩ := List.eq_append_cons_of_mem h
    exact ⟨before, after, hbefore, rfl, partition_append hbefore after⟩
  · exact .inl ⟨h, partition_none h⟩

theorem containsSub_append (before sub after : Text) :
    containsSub sub (before ++ (sub ++ after)) = true := by
  rw [containsSub, List.any_eq_true]
  exact ⟨sub ++ after, (List.mem_tails _ _).mpr (List.suffix_append _ _),
    List.isPrefixOf_iff_prefix.mpr (List.prefix_append _ _)⟩

theorem mem_join {sep : Text} {parts : List Text} {c : Char} (h : c ∈ join sep parts) :
    c ∈ sep ∨ ∃ part ∈ parts, c ∈ part := by
  induction parts with
  | nil => simp [join] at h
  | cons part parts ih =>
      cases parts with
      | nil => exact .inr ⟨part, by simp, by simpa [join] using h⟩
      | cons next parts =>
          have hsplit : c ∈ part ∨ c ∈ sep ∨ c ∈ join sep (next :: parts) := by
            simpa [join] using h
          rcases hsplit with hc | hc | hc
          · exact .inr ⟨part, by simp, hc⟩
          · exact .inl hc
          · rcases ih hc with hsep | ⟨found, hfound, hc⟩
            · exact .inl hsep
            · exact .inr ⟨found, List.mem_cons_of_mem _ hfound, hc⟩

end Text

namespace Urllib

/-- Leading controls and spaces are dropped, and tabs and line ends wherever they stand. -/
def stripped (url : Text) : Text :=
  (Text.lstrip isC0OrSpace url).filter fun c => !isUnsafeByte c

def authority (rest : Text) : Text × Text :=
  if Text.startsWith ['/', '/'] rest then
    ((rest.drop 2).takeWhile fun c => !isDelimiter c,
      (rest.drop 2).dropWhile fun c => !isDelimiter c)
  else ([], rest)

def acceptable (uc : Unicode) (isIPv6 : Text → Bool) (netloc : Text) : Bool :=
  (netloc.contains '[' == netloc.contains ']') &&
    (!netloc.contains '[' || checkBracketedNetloc isIPv6 netloc) && checkNetloc uc netloc

/-- The parts of a text whose scheme, authority and remainder are known. -/
def resultOf (scheme netloc rest : Text) : SplitResult :=
  ⟨scheme, netloc, (Text.partition '?' (Text.partition '#' rest).1).1,
    (Text.partition '?' (Text.partition '#' rest).1).2.2, (Text.partition '#' rest).2.2⟩

variable (uc : Unicode) (isIPv6 : Text → Bool)

theorem urlsplit_eq (url : Text) :
    urlsplit uc isIPv6 url =
      if acceptable uc isIPv6 (authority (splitScheme (stripped url)).2).1 then
        some (resultOf (splitScheme (stripped url)).1
          (authority (splitScheme (stripped url)).2).1
          (authority (splitScheme (stripped url)).2).2)
      else none := by
  have hparts : urlsplit uc isIPv6 url =
      (let netloc := (authority (splitScheme (stripped url)).2).1
      if (netloc.contains '[' != netloc.contains ']') = true then none
      else if (netloc.contains '[' && netloc.contains ']' &&
          !checkBracketedNetloc isIPv6 netloc) = true then none
      else if checkNetloc uc netloc = true then
        some (resultOf (splitScheme (stripped url)).1 netloc
          (authority (splitScheme (stripped url)).2).2)
      else none) := rfl
  rw [hparts]
  generalize (authority (splitScheme (stripped url)).2).1 = netloc
  dsimp only
  unfold acceptable
  cases netloc.contains '[' <;> cases netloc.contains ']' <;>
    cases checkBracketedNetloc isIPv6 netloc <;> cases checkNetloc uc netloc <;> rfl

/-- A scheme as `urlsplit` returns it. -/
structure IsScheme (scheme : Text) : Prop where
  leads : ∃ c cs, scheme = c :: cs ∧ c.isAlpha = true
  chars : scheme.all isSchemeChar = true
  lowered : scheme.map Char.toLower = scheme

theorem IsScheme.http : IsScheme "http".toList :=
  ⟨⟨'h', "ttp".toList, rfl, by decide⟩, by decide, by decide⟩

theorem IsScheme.https : IsScheme "https".toList :=
  ⟨⟨'h', "ttps".toList, rfl, by decide⟩, by decide, by decide⟩

theorem isSchemeChar_toLower (c : Char) : isSchemeChar c.toLower = isSchemeChar c := by
  unfold isSchemeChar
  by_cases hupper : c.isUpper = true
  · have halpha : c.isAlpha = true := Text.isAlpha_iff.mpr (.inl hupper)
    have hlower : c.toLower.isAlpha = true := by rw [Text.isAlpha_toLower, halpha]
    rw [Text.isAlphanum_iff.mpr (.inl halpha), Text.isAlphanum_iff.mpr (.inl hlower)]
    rfl
  · rw [Text.toLower_of_not_upper hupper]

theorem splitScheme_cases (url : Text) :
    splitScheme url = ([], url) ∨
      ∃ scheme rest, url = scheme ++ ':' :: rest ∧ IsScheme (scheme.map Char.toLower) ∧
        splitScheme url = (scheme.map Char.toLower, rest) := by
  unfold splitScheme
  rcases Text.partition_cases ':' url with ⟨-, hpart⟩ | ⟨scheme, rest, -, hurl, hpart⟩
  · rw [hpart]
    exact .inl rfl
  · rw [hpart]
    cases scheme with
    | nil => exact .inl rfl
    | cons c cs =>
        by_cases hok : (c.isAlpha && (c :: cs).all isSchemeChar) = true
        · right
          simp only [hok, if_true]
          obtain ⟨halpha, hchars⟩ := Bool.and_eq_true_iff.mp hok
          refine ⟨c :: cs, rest, hurl, ⟨⟨c.toLower, cs.map Char.toLower, rfl, ?_⟩, ?_, ?_⟩,
            rfl⟩
          · rw [Text.isAlpha_toLower, halpha]
          · rw [List.all_map]
            simpa [isSchemeChar_toLower] using hchars
          · rw [List.map_map]
            exact List.map_congr_left fun d _ => Text.toLower_toLower d
        · left
          simp only [hok]
          rfl

theorem IsScheme.written {written : Text} (h : IsScheme (written.map Char.toLower)) :
    (∃ c cs, written = c :: cs ∧ c.isAlpha = true) ∧ written.all isSchemeChar = true := by
  obtain ⟨c, cs, hcons, halpha⟩ := h.leads
  obtain ⟨d, ds, rfl, rfl, -⟩ := List.map_eq_cons_iff.mp hcons
  rw [Text.isAlpha_toLower] at halpha
  have hchars := h.chars
  rw [List.all_map] at hchars
  exact ⟨⟨d, ds, rfl, halpha⟩, by simpa [isSchemeChar_toLower] using hchars⟩

theorem splitScheme_spelled {written : Text} (h : IsScheme (written.map Char.toLower))
    (rest : Text) :
    splitScheme (written ++ ':' :: rest) = (written.map Char.toLower, rest) := by
  obtain ⟨⟨c, cs, hcons, halpha⟩, hchars⟩ := h.written
  have hcolon : ':' ∉ written := by
    intro hmem
    have hchar := List.all_eq_true.mp hchars ':' hmem
    exact absurd hchar (by decide)
  have hok : (c.isAlpha && written.all isSchemeChar) = true := by simp [halpha, hchars]
  unfold splitScheme
  rw [Text.partition_append hcolon]
  rw [hcons] at hok ⊢
  simp only [hok, if_true]

theorem IsScheme.split {scheme : Text} (h : IsScheme scheme) (rest : Text) :
    splitScheme (scheme ++ ':' :: rest) = (scheme, rest) := by
  have hwritten : IsScheme (scheme.map Char.toLower) := by rwa [h.lowered]
  rw [splitScheme_spelled hwritten, h.lowered]

/-- The characters of an authority without user, brackets or escapes. -/
def isAuthorityChar (c : Char) : Bool := c.isAlphanum || c == '.' || c == '-' || c == ':'

structure Splittable (scheme netloc path query : Text) : Prop where
  scheme : IsScheme scheme
  netloc : ∀ c ∈ netloc, isAuthorityChar c = true
  rooted : path = [] ∨ ∃ p, path = '/' :: p
  path : ∀ c ∈ path, c ≠ '?' ∧ c ≠ '#' ∧ isUnsafeByte c = false
  query : ∀ c ∈ query, c ≠ '#' ∧ isUnsafeByte c = false

def queryPart (query : Text) : Text := if query.isEmpty then [] else '?' :: query

theorem alphanum_ascii {c : Char} (h : c.isAlphanum = true) : c.toNat < 128 := by
  rw [Text.isAlphanum_iff, Text.isAlpha_iff, Text.isUpper_iff, Text.isLower_iff,
    Text.isDigit_iff] at h
  omega

theorem not_authorityChar {c d : Char} (h : isAuthorityChar c = true)
    (hd : isAuthorityChar d = false) : c ≠ d := by
  rintro rfl
  rw [hd] at h
  cases h

theorem authorityChar_safe {c : Char} (h : isAuthorityChar c = true) : isUnsafeByte c = false := by
  have htab := not_authorityChar h (show isAuthorityChar '\t' = false by decide)
  have hreturn := not_authorityChar h (show isAuthorityChar '\r' = false by decide)
  have hfeed := not_authorityChar h (show isAuthorityChar '\n' = false by decide)
  simp [isUnsafeByte, htab, hreturn, hfeed]

theorem authorityChar_inside {c : Char} (h : isAuthorityChar c = true) : isDelimiter c = false := by
  have hslash := not_authorityChar h (show isAuthorityChar '/' = false by decide)
  have hquery := not_authorityChar h (show isAuthorityChar '?' = false by decide)
  have hhash := not_authorityChar h (show isAuthorityChar '#' = false by decide)
  simp [isDelimiter, hslash, hquery, hhash]

theorem authorityChar_ascii {c : Char} (h : isAuthorityChar c = true) : c.toNat < 128 := by
  simp only [isAuthorityChar, Bool.or_eq_true, beq_iff_eq] at h
  rcases h with ((halnum | rfl) | rfl) | rfl
  · exact alphanum_ascii halnum
  all_goals decide

theorem not_mem_netloc {netloc : Text} (h : ∀ c ∈ netloc, isAuthorityChar c = true) {d : Char}
    (hd : isAuthorityChar d = false) : d ∉ netloc :=
  fun hmem => not_authorityChar (h d hmem) hd rfl

theorem netloc_acceptable {netloc : Text} (h : ∀ c ∈ netloc, isAuthorityChar c = true) :
    acceptable uc isIPv6 netloc = true := by
  have hopened : netloc.contains '[' = false := by
    simpa using not_mem_netloc h (show isAuthorityChar '[' = false by decide)
  have hclosed : netloc.contains ']' = false := by
    simpa using not_mem_netloc h (show isAuthorityChar ']' = false by decide)
  have hascii : Text.isAscii netloc = true := by
    rw [Text.isAscii, List.all_eq_true]
    intro c hc
    exact decide_eq_true (authorityChar_ascii (h c hc))
  unfold acceptable checkNetloc
  rw [hopened, hclosed, hascii]
  simp

theorem schemeChar_safe {c : Char} (h : isSchemeChar c = true) : isUnsafeByte c = false := by
  have hne {d : Char} (hd : isSchemeChar d = false) : c ≠ d := by
    rintro rfl
    rw [hd] at h
    cases h
  simp [isUnsafeByte, hne (show isSchemeChar '\t' = false by decide),
    hne (show isSchemeChar '\r' = false by decide), hne (show isSchemeChar '\n' = false by decide)]

theorem schemeChar_ascii {c : Char} (h : isSchemeChar c = true) : c.toNat < 128 := by
  simp only [isSchemeChar, Bool.or_eq_true, beq_iff_eq] at h
  rcases h with ((halnum | rfl) | rfl) | rfl
  · exact alphanum_ascii halnum
  all_goals decide

theorem alpha_not_stripped {c : Char} (h : c.isAlpha = true) : isC0OrSpace c = false := by
  rw [Text.isAlpha_iff, Text.isUpper_iff, Text.isLower_iff] at h
  rw [isC0OrSpace, decide_eq_false_iff_not]
  omega

theorem stripped_spelled {written : Text} (h : IsScheme (written.map Char.toLower)) (rest : Text) :
    stripped (written ++ ':' :: rest) =
      written ++ ':' :: rest.filter (fun c => !isUnsafeByte c) := by
  obtain ⟨⟨c, cs, rfl, halpha⟩, hchars⟩ := h.written
  have hkept : (c :: cs).filter (fun c => !isUnsafeByte c) = c :: cs := by
    rw [List.filter_eq_self]
    intro d hd
    rw [schemeChar_safe (List.all_eq_true.mp hchars d hd)]
    rfl
  rw [stripped, Text.lstrip, List.cons_append,
    List.dropWhile_cons_of_neg (by simp [alpha_not_stripped halpha]), ← List.cons_append,
    List.filter_append, hkept]
  rfl

theorem stripped_scheme {scheme : Text} (h : IsScheme scheme) (rest : Text) :
    stripped (scheme ++ ':' :: rest) =
      scheme ++ ':' :: rest.filter (fun c => !isUnsafeByte c) :=
  stripped_spelled (by rwa [h.lowered]) rest

theorem authority_append {netloc tail : Text} (h : ∀ c ∈ netloc, isDelimiter c = false)
    (htail : ∀ c, tail.head? = some c → isDelimiter c = true) :
    authority ('/' :: '/' :: (netloc ++ tail)) = (netloc, tail) := by
  have hinside : ∀ c ∈ netloc, (!isDelimiter c) = true := by
    intro c hc
    rw [h c hc]
    rfl
  have hstart : Text.startsWith ['/', '/'] ('/' :: '/' :: (netloc ++ tail)) = true := rfl
  unfold authority
  rw [if_pos hstart]
  simp only [List.drop_succ_cons, List.drop_zero]
  rw [List.takeWhile_append_of_pos hinside, List.dropWhile_append_of_pos hinside]
  cases tail with
  | nil => simp
  | cons c cs => simp [htail c rfl]

theorem hash_outside {path query : Text} (hpath : '#' ∉ path) (hquery : '#' ∉ query) :
    '#' ∉ path ++ queryPart query := by
  unfold queryPart
  intro hmem
  rcases List.mem_append.mp hmem with hmem | hmem
  · exact hpath hmem
  · split at hmem
    · cases hmem
    · rcases List.mem_cons.mp hmem with heq | hmem
      · exact absurd heq (by decide)
      · exact hquery hmem

theorem resultOf_parts (scheme netloc : Text) {path query : Text}
    (hpath : ∀ c ∈ path, c ≠ '?' ∧ c ≠ '#') (hquery : ∀ c ∈ query, c ≠ '#') :
    resultOf scheme netloc (path ++ queryPart query) = ⟨scheme, netloc, path, query, []⟩ := by
  have hhash : '#' ∉ path ++ queryPart query :=
    hash_outside (fun hmem => (hpath _ hmem).2 rfl) fun hmem => hquery _ hmem rfl
  have hmark : '?' ∉ path := fun hmem => (hpath _ hmem).1 rfl
  unfold resultOf
  rw [Text.partition_none hhash]
  cases query with
  | nil => simp [queryPart, Text.partition_none hmark]
  | cons c cs => simp [queryPart, Text.partition_append hmark]

variable {scheme netloc path query : Text}

theorem urlunsplit_rooted (h : path = [] ∨ ∃ p, path = '/' :: p) :
    urlunsplit scheme netloc path query [] =
      scheme ++ ':' :: '/' :: '/' :: (netloc ++ (path ++ queryPart query)) := by
  have hpath : (if !path.isEmpty && !Text.startsWith ['/'] path then '/' :: path else path) =
      path := by
    rcases h with rfl | ⟨p, rfl⟩ <;> rfl
  simp only [urlunsplit, hpath, queryPart, List.isEmpty_nil, if_true, List.append_nil,
    List.append_assoc, List.cons_append, List.nil_append]

theorem urlsplit_spelled {written tail : Text} (hscheme : IsScheme (written.map Char.toLower))
    (hnetloc : ∀ c ∈ netloc, isDelimiter c = false ∧ isUnsafeByte c = false)
    (hok : acceptable uc isIPv6 netloc = true)
    (hhead : ∀ c, tail.head? = some c → isDelimiter c = true)
    (hsafe : ∀ c ∈ tail, isUnsafeByte c = false) :
    Urllib.urlsplit uc isIPv6 (written ++ ':' :: '/' :: '/' :: (netloc ++ tail)) =
      some (resultOf (written.map Char.toLower) netloc tail) := by
  have hkept : (netloc ++ tail).filter (fun c => !isUnsafeByte c) = netloc ++ tail := by
    rw [List.filter_eq_self]
    intro c hc
    rcases List.mem_append.mp hc with hc | hc
    · simp [(hnetloc c hc).2]
    · simp [hsafe c hc]
  have hslashes : ('/' :: '/' :: (netloc ++ tail)).filter (fun c => !isUnsafeByte c) =
      '/' :: '/' :: (netloc ++ tail) := by
    rw [List.filter_cons_of_pos (by decide), List.filter_cons_of_pos (by decide), hkept]
  rw [urlsplit_eq, stripped_spelled hscheme, hslashes, splitScheme_spelled hscheme]
  dsimp only
  rw [authority_append (fun c hc => (hnetloc c hc).1) hhead]
  dsimp only
  rw [hok, if_pos rfl]

theorem urlsplit_joined {tail : Text} (hscheme : IsScheme scheme)
    (hnetloc : ∀ c ∈ netloc, isDelimiter c = false ∧ isUnsafeByte c = false)
    (hok : acceptable uc isIPv6 netloc = true)
    (hhead : ∀ c, tail.head? = some c → isDelimiter c = true)
    (hsafe : ∀ c ∈ tail, isUnsafeByte c = false) :
    Urllib.urlsplit uc isIPv6 (scheme ++ ':' :: '/' :: '/' :: (netloc ++ tail)) =
      some (resultOf scheme netloc tail) := by
  have hwritten : IsScheme (scheme.map Char.toLower) := by rwa [hscheme.lowered]
  rw [urlsplit_spelled uc isIPv6 hwritten hnetloc hok hhead hsafe, hscheme.lowered]

theorem Splittable.urlsplit (h : Splittable scheme netloc path query) :
    Urllib.urlsplit uc isIPv6 (urlunsplit scheme netloc path query []) =
      some ⟨scheme, netloc, path, query, []⟩ := by
  have hsafe : ∀ c ∈ path ++ queryPart query, isUnsafeByte c = false := by
    intro c hc
    unfold queryPart at hc
    rcases List.mem_append.mp hc with hc | hc
    · exact (h.path c hc).2.2
    · split at hc
      · cases hc
      · rcases List.mem_cons.mp hc with rfl | hc
        · rfl
        · exact (h.query c hc).2
  have hhead : ∀ c, (path ++ queryPart query).head? = some c → isDelimiter c = true := by
    intro c hc
    unfold queryPart at hc
    rcases h.rooted with rfl | ⟨p, rfl⟩
    · split at hc
      · cases hc
      · obtain rfl : '?' = c := by simpa using hc
        rfl
    · obtain rfl : '/' = c := by simpa using hc
      rfl
  have hnetloc : ∀ c ∈ netloc, isDelimiter c = false ∧ isUnsafeByte c = false :=
    fun c hc => ⟨authorityChar_inside (h.netloc c hc), authorityChar_safe (h.netloc c hc)⟩
  rw [urlunsplit_rooted h.rooted, urlsplit_joined uc isIPv6 h.scheme hnetloc
    (netloc_acceptable uc isIPv6 h.netloc) hhead hsafe,
    resultOf_parts scheme netloc (fun c hc => ⟨(h.path c hc).1, (h.path c hc).2.1⟩)
      (fun c hc => (h.query c hc).1)]

variable {uc isIPv6} {url : Text} {r : SplitResult}

theorem urlsplit_some (h : Urllib.urlsplit uc isIPv6 url = some r) :
    acceptable uc isIPv6 (authority (splitScheme (stripped url)).2).1 = true ∧
      r = resultOf (splitScheme (stripped url)).1 (authority (splitScheme (stripped url)).2).1
        (authority (splitScheme (stripped url)).2).2 := by
  rw [urlsplit_eq] at h
  split at h
  · rename_i hok
    exact ⟨hok, (Option.some.inj h).symm⟩
  · cases h

theorem urlsplit_bare (h : (authority (splitScheme (stripped url)).2).1 = []) :
    Urllib.urlsplit uc isIPv6 url =
      some (resultOf (splitScheme (stripped url)).1 []
        (authority (splitScheme (stripped url)).2).2) := by
  rw [urlsplit_eq, h]
  rfl

theorem mem_partition_fst {sep c : Char} {s : Text} (h : c ∈ (Text.partition sep s).1) :
    c ≠ sep ∧ c ∈ s := by
  rcases Text.partition_cases sep s with ⟨hsep, hpart⟩ | ⟨before, after, hsep, rfl, hpart⟩
  · rw [hpart] at h
    exact ⟨fun heq => hsep (heq ▸ h), h⟩
  · rw [hpart] at h
    exact ⟨fun heq => hsep (heq ▸ h), List.mem_append_left _ h⟩

theorem resultOf_path {rest : Text} {c : Char} (h : c ∈ (resultOf scheme netloc rest).path) :
    c ≠ '?' ∧ c ≠ '#' ∧ c ∈ rest := by
  obtain ⟨hmark, hmem⟩ := mem_partition_fst h
  obtain ⟨hhash, hmem⟩ := mem_partition_fst hmem
  exact ⟨hmark, hhash, hmem⟩

theorem partition_fst_cons {sep c : Char} {s : Text} (h : c ≠ sep) :
    (Text.partition sep (c :: s)).1 = c :: (Text.partition sep s).1 := by
  rcases Text.partition_cases sep s with ⟨hsep, hpart⟩ | ⟨before, after, hsep, rfl, hpart⟩
  · rw [hpart, Text.partition_none (by simp [h.symm, hsep])]
  · have hbefore : sep ∉ c :: before := by simp [h.symm, hsep]
    rw [hpart, ← List.cons_append, Text.partition_append hbefore]

theorem authority_cases (rest : Text) :
    (authority rest = ([], rest) ∧ Text.startsWith ['/', '/'] rest = false) ∨
      ∀ c, (authority rest).2.head? = some c → isDelimiter c = true := by
  unfold authority
  split
  · right
    intro c hc
    have hstop := List.head?_dropWhile_not (fun c => !isDelimiter c) (rest.drop 2)
    rw [hc] at hstop
    simpa using hstop
  · rename_i hstart
    exact .inl ⟨rfl, by simpa using hstart⟩

theorem authority_starts {rest : Text} (h : (authority rest).1 ≠ []) :
    ∃ after, rest = '/' :: '/' :: after := by
  unfold authority at h
  split at h
  · rename_i hstart
    obtain ⟨after, hafter⟩ := List.isPrefixOf_iff_prefix.mp hstart
    exact ⟨after, hafter.symm⟩
  · exact absurd rfl h

theorem authority_rest {rest : Text} (hnetloc : (authority rest).1 ≠ []) :
    ∀ c, (authority rest).2.head? = some c → isDelimiter c = true := by
  rcases authority_cases rest with ⟨hbare, -⟩ | hdelimited
  · rw [hbare] at hnetloc
    exact absurd rfl hnetloc
  · exact hdelimited

theorem resultOf_rooted {rest : Text}
    (hrest : ∀ c, rest.head? = some c → isDelimiter c = true) :
    (resultOf scheme netloc rest).path = [] ∨
      ∃ p, (resultOf scheme netloc rest).path = '/' :: p := by
  cases rest with
  | nil => exact .inl rfl
  | cons c cs =>
      have hc := hrest c rfl
      simp only [isDelimiter, Bool.or_eq_true, beq_iff_eq] at hc
      rcases hc with (rfl | rfl) | rfl
      · right
        simp only [resultOf]
        rw [partition_fst_cons (by decide), partition_fst_cons (by decide)]
        exact ⟨_, rfl⟩
      · left
        simp only [resultOf]
        rw [partition_fst_cons (by decide)]
        rfl
      · exact .inl rfl

theorem mem_stripped {c : Char} (h : c ∈ stripped url) : c ∈ url ∧ isUnsafeByte c = false := by
  obtain ⟨hmem, hsafe⟩ := List.mem_filter.mp h
  exact ⟨(List.dropWhile_suffix _).subset hmem, by simpa using hsafe⟩

theorem stripped_clean (hclean : ∀ c ∈ url, isUnsafeByte c = false) :
    stripped url = url.dropWhile isC0OrSpace := by
  rw [stripped, Text.lstrip, List.filter_eq_self]
  intro c hc
  rw [hclean c ((List.dropWhile_suffix _).subset hc)]
  rfl

theorem mem_splitScheme_rest {c : Char} (h : c ∈ (splitScheme url).2) : c ∈ url := by
  rcases splitScheme_cases url with hsplit | ⟨scheme, rest, rfl, -, hsplit⟩
  · rwa [hsplit] at h
  · rw [hsplit] at h
    exact List.mem_append_right _ (List.mem_cons_of_mem _ h)

theorem mem_authority_rest {rest : Text} {c : Char} (h : c ∈ (authority rest).2) : c ∈ rest := by
  unfold authority at h
  split at h
  · exact List.mem_of_mem_drop ((List.dropWhile_suffix _).subset h)
  · exact h

theorem urlsplit_scheme (h : Urllib.urlsplit uc isIPv6 url = some r) :
    r.scheme = [] ∨ IsScheme r.scheme := by
  obtain ⟨-, rfl⟩ := urlsplit_some h
  rcases splitScheme_cases (stripped url) with hsplit | ⟨scheme, rest, -, hscheme, hsplit⟩
  · left
    simp [resultOf, hsplit]
  · right
    simpa [resultOf, hsplit] using hscheme

theorem urlsplit_path (h : Urllib.urlsplit uc isIPv6 url = some r) {c : Char} (hc : c ∈ r.path) :
    c ≠ '?' ∧ c ≠ '#' ∧ isUnsafeByte c = false := by
  obtain ⟨-, rfl⟩ := urlsplit_some h
  obtain ⟨hmark, hhash, hmem⟩ := resultOf_path hc
  exact ⟨hmark, hhash, (mem_stripped (mem_splitScheme_rest (mem_authority_rest hmem))).2⟩

theorem urlsplit_rooted (h : Urllib.urlsplit uc isIPv6 url = some r) (hnetloc : r.netloc ≠ []) :
    r.path = [] ∨ ∃ p, r.path = '/' :: p := by
  obtain ⟨-, rfl⟩ := urlsplit_some h
  exact resultOf_rooted (authority_rest hnetloc)

theorem hostname_netloc {host : Text} (h : r.hostname uc = some host) : r.netloc ≠ [] := by
  intro hempty
  simp [SplitResult.hostname, SplitResult.hostinfo, hempty, Text.rpartition, Text.partition] at h

def isPlainHostChar (c : Char) : Bool := isAuthorityChar c && c != ':'

theorem hostinfo_plain {host : Text} (hhost : ∀ c ∈ host, isPlainHostChar c = true) {port : Text}
    (hport : port = [] ∨ ∃ digits, port = ':' :: digits ∧ ∀ c ∈ digits, isAuthorityChar c = true)
    (hnetloc : r.netloc = host ++ port) :
    r.hostinfo = (host, Text.orNone (port.drop 1)) := by
  have hcolon : ':' ∉ host := fun hmem => absurd (hhost _ hmem) (by decide)
  have hall : ∀ c ∈ host ++ port, isAuthorityChar c = true := by
    intro c hc
    rcases List.mem_append.mp hc with hc | hc
    · exact (Bool.and_eq_true_iff.mp (hhost c hc)).1
    · rcases hport with rfl | ⟨digits, rfl, hdigits⟩
      · cases hc
      · rcases List.mem_cons.mp hc with rfl | hc
        · rfl
        · exact hdigits c hc
  unfold SplitResult.hostinfo
  rw [hnetloc, Text.rpartition_none (not_mem_netloc hall (by decide))]
  dsimp only
  rw [Text.partition_none (not_mem_netloc hall (by decide))]
  dsimp only
  rcases hport with rfl | ⟨digits, rfl, -⟩
  · rw [List.append_nil, Text.partition_none hcolon]
    rfl
  · rw [Text.partition_append hcolon]
    rfl

theorem hostname_spelled {host : Text} (hhost : ∀ c ∈ host, isPlainHostChar c = true)
    (hne : host ≠ []) {port : Option Text} (hinfo : r.hostinfo = (host, port)) :
    r.hostname uc = some (host.map Char.toLower) := by
  have hascii : Text.isAscii host = true := by
    rw [Text.isAscii, List.all_eq_true]
    intro c hc
    exact decide_eq_true (authorityChar_ascii (Bool.and_eq_true_iff.mp (hhost c hc)).1)
  have hpercent : '%' ∉ host := fun hmem => absurd (hhost _ hmem) (by decide)
  unfold SplitResult.hostname
  rw [hinfo]
  dsimp only
  rw [if_neg (by simpa using hne), Text.partition_none hpercent, uc.lower_ascii host hascii]
  simp

theorem hostname_plain {host : Text} (hhost : ∀ c ∈ host, isPlainHostChar c = true)
    (hlower : host.map Char.toLower = host) (hne : host ≠ []) {port : Option Text}
    (hinfo : r.hostinfo = (host, port)) : r.hostname uc = some host := by
  rw [hostname_spelled hhost hne hinfo, hlower]

theorem urlsplit_netloc (h : Urllib.urlsplit uc isIPv6 url = some r) {c : Char}
    (hc : c ∈ r.netloc) : isDelimiter c = false ∧ isUnsafeByte c = false := by
  obtain ⟨-, rfl⟩ := urlsplit_some h
  have hinside : ∀ rest, c ∈ (authority rest).1 → isDelimiter c = false ∧ c ∈ rest := by
    intro rest hmem
    unfold authority at hmem
    split at hmem
    · refine ⟨by simpa using List.mem_takeWhile_imp hmem, ?_⟩
      exact List.mem_of_mem_drop ((List.takeWhile_prefix _).subset hmem)
    · cases hmem
  obtain ⟨hdelimiter, hmem⟩ := hinside _ hc
  exact ⟨hdelimiter, (mem_stripped (mem_splitScheme_rest hmem)).2⟩

theorem mem_partition_snd {sep c : Char} {s : Text} (h : c ∈ (Text.partition sep s).2.2) :
    c ∈ s := by
  rcases Text.partition_cases sep s with ⟨-, hpart⟩ | ⟨before, after, -, rfl, hpart⟩
  · rw [hpart] at h
    cases h
  · rw [hpart] at h
    exact List.mem_append_right _ (List.mem_cons_of_mem _ h)

theorem mem_rpartition_snd {sep c : Char} {s : Text} (h : c ∈ (Text.rpartition sep s).2.2) :
    c ≠ sep ∧ c ∈ s := by
  unfold Text.rpartition at h
  rcases Text.partition_cases sep s.reverse with ⟨hsep, hpart⟩ | ⟨after, before, hsep, hs, hpart⟩
  · rw [hpart] at h
    refine ⟨?_, h⟩
    rintro rfl
    exact hsep (List.mem_reverse.mpr h)
  · rw [hpart] at h
    have hc : c ∈ after := List.mem_reverse.mp h
    refine ⟨?_, ?_⟩
    · rintro rfl
      exact hsep hc
    · rw [← List.mem_reverse, hs]
      exact List.mem_append_left _ hc

theorem hostinfo_congr {r' : SplitResult} (h : r.netloc = r'.netloc) :
    r.hostinfo = r'.hostinfo := by
  unfold SplitResult.hostinfo
  rw [h]

theorem hostname_congr {r' : SplitResult} (h : r.netloc = r'.netloc) :
    r.hostname uc = r'.hostname uc := by
  unfold SplitResult.hostname
  rw [hostinfo_congr h]

theorem hostinfo_cases (r : SplitResult) :
    ('[' ∉ (Text.rpartition '@' r.netloc).2.2 ∧
      r.hostinfo = ((Text.partition ':' (Text.rpartition '@' r.netloc).2.2).1,
        Text.orNone (Text.partition ':' (Text.rpartition '@' r.netloc).2.2).2.2)) ∨
      ∃ before after, (Text.rpartition '@' r.netloc).2.2 = before ++ '[' :: after ∧
        r.hostinfo.1 = (Text.partition ']' after).1 := by
  unfold SplitResult.hostinfo
  dsimp only
  rcases Text.partition_cases '[' (Text.rpartition '@' r.netloc).2.2 with
    ⟨hopen, hpart⟩ | ⟨before, after, -, hinfo, hpart⟩
  · left
    rw [hpart]
    exact ⟨hopen, rfl⟩
  · right
    rw [hpart]
    exact ⟨before, after, hinfo, rfl⟩

theorem mem_hostinfo {c : Char} (h : c ∈ r.hostinfo.1) : c ≠ '@' ∧ c ∈ r.netloc := by
  apply mem_rpartition_snd
  rcases hostinfo_cases r with ⟨-, hhost⟩ | ⟨before, after, hinfo, hhost⟩
  · rw [hhost] at h
    exact (mem_partition_fst h).2
  · rw [hhost] at h
    rw [hinfo]
    exact List.mem_append_right _ (List.mem_cons_of_mem _ (mem_partition_fst h).2)

theorem hostinfo_brackets (r : SplitResult) : '[' ∉ r.hostinfo.1 ∨ ']' ∉ r.hostinfo.1 := by
  rcases hostinfo_cases r with ⟨hopen, hhost⟩ | ⟨before, after, -, hhost⟩
  · left
    rw [hhost]
    exact fun hmem => hopen (mem_partition_fst hmem).2
  · right
    rw [hhost]
    exact fun hmem => (mem_partition_fst hmem).1 rfl

def isQueryChar (c : Char) : Bool :=
  isAlwaysSafe c || c == '+' || c == '%' || c == '=' || c == '&'

theorem upperHexDigit_safe : ∀ n < 16, isAlwaysSafe (upperHexDigit n) = true := by
  decide

theorem percent_safe (b : UInt8) {c : Char} (h : c ∈ percent b) : isQueryChar c = true := by
  have hb : b.toNat < 256 := b.toNat_lt
  simp only [percent, List.mem_cons, List.not_mem_nil, or_false] at h
  rcases h with rfl | rfl | rfl
  · rfl
  · rw [isQueryChar, upperHexDigit_safe _ (by omega)]
    rfl
  · rw [isQueryChar, upperHexDigit_safe _ (by omega)]
    rfl

theorem quotePlus_safe {s : Text} {c : Char} (h : c ∈ quotePlus s) : isQueryChar c = true := by
  obtain ⟨d, -, hd⟩ := List.mem_flatMap.mp h
  split at hd
  · rename_i hsafe
    obtain rfl : c = d := by simpa using hd
    rw [isQueryChar, hsafe]
    rfl
  · split at hd
    · obtain rfl : c = '+' := by simpa using hd
      rfl
    · obtain ⟨b, -, hb⟩ := List.mem_flatMap.mp hd
      exact percent_safe b hb

theorem urlencode_safe {params : List (Text × Text)} {c : Char} (h : c ∈ urlencode params) :
    isQueryChar c = true := by
  rcases Text.mem_join h with hamp | ⟨part, hpart, hc⟩
  · obtain rfl : c = '&' := by simpa using hamp
    rfl
  · obtain ⟨p, -, rfl⟩ := List.mem_map.mp hpart
    rcases List.mem_append.mp hc with hc | hc
    · rcases List.mem_append.mp hc with hc | hc
      · exact quotePlus_safe hc
      · obtain rfl : c = '=' := by simpa using hc
        rfl
    · exact quotePlus_safe hc

theorem queryChar_plain {c : Char} (h : isQueryChar c = true) :
    c ≠ '#' ∧ isUnsafeByte c = false := by
  have hne {d : Char} (hd : isQueryChar d = false) : c ≠ d := by
    rintro rfl
    rw [hd] at h
    cases h
  refine ⟨hne (by decide), ?_⟩
  simp [isUnsafeByte, hne (show isQueryChar '\t' = false by decide),
    hne (show isQueryChar '\r' = false by decide), hne (show isQueryChar '\n' = false by decide)]

end Urllib

end LeadPipe
