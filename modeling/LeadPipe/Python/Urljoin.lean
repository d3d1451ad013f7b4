import LeadPipe.Python.UrlLaws

/-!
# Putting addresses together

`urljoin`, and the parts of `urllib.parse` that the fetcher and the adapters use besides. A part
that is missing is told apart from one that is empty only inside `urljoin`.
-/

namespace LeadPipe.Urllib

def usesRelative : List Text :=
  ["", "ftp", "http", "gopher", "nntp", "imap", "wais", "file", "https", "shttp", "mms",
    "prospero", "rtsp", "rtsps", "rtspu", "sftp", "svn", "svn+ssh", "ws", "wss"].map String.toList

def usesNetloc : List Text :=
  ["", "ftp", "http", "gopher", "nntp", "telnet", "imap", "wais", "file", "mms", "https", "shttp",
    "snews", "prospero", "rtsp", "rtsps", "rtspu", "rsync", "svn", "svn+ssh", "sftp", "nfs", "git",
    "git+ssh", "ws", "wss", "itms-services"].map String.toList

def withAuthority (scheme netloc path : Text) : Text :=
  if !netloc.isEmpty then
    let path := if !path.isEmpty && !Text.startsWith ['/'] path then '/' :: path else path
    '/' :: '/' :: (netloc ++ path)
  else if Text.startsWith ['/', '/'] path then '/' :: '/' :: path
  else if !scheme.isEmpty && usesNetloc.contains scheme &&
      (path.isEmpty || Text.startsWith ['/'] path) then '/' :: '/' :: path
  else path

/-- `_urlunsplit` -/
def joinParts (scheme netloc path : Text) (query fragment : Option Text) : Text :=
  let path := withAuthority scheme netloc path
  let url := if scheme.isEmpty then path else scheme ++ ':' :: path
  let url := match query with
    | some q => url ++ '?' :: q
    | none => url
  match fragment with
  | some f => url ++ '#' :: f
  | none => url

/-- `urlunsplit` for parts of any kind. -/
def unsplit (scheme netloc path query fragment : Text) : Text :=
  joinParts scheme netloc path (Text.orNone query) (Text.orNone fragment)

def tailOf (query fragment : Text) : Text :=
  queryPart query ++ if fragment.isEmpty then [] else '#' :: fragment

def schemePart (scheme : Text) : Text := if scheme.isEmpty then [] else scheme ++ [':']

theorem unsplit_eq (scheme netloc path query fragment : Text) :
    unsplit scheme netloc path query fragment =
      schemePart scheme ++ (withAuthority scheme netloc path ++ tailOf query fragment) := by
  unfold unsplit joinParts schemePart tailOf queryPart
  generalize withAuthority scheme netloc path = rooted
  cases scheme <;> cases query <;> cases fragment <;> simp [Text.orNone]

theorem withAuthority_cases (scheme : Text) {netloc path : Text}
    (hrooted : netloc ≠ [] → path = [] ∨ ∃ p, path = '/' :: p) :
    (withAuthority scheme netloc path = '/' :: '/' :: (netloc ++ path) ∧
        (path = [] ∨ ∃ p, path = '/' :: p)) ∨
      (netloc = [] ∧ withAuthority scheme netloc path = path ∧
        Text.startsWith ['/', '/'] path = false) := by
  unfold withAuthority
  cases netloc with
  | cons c cs =>
      left
      refine ⟨?_, hrooted (by simp)⟩
      rcases hrooted (by simp) with rfl | ⟨p, rfl⟩ <;> rfl
  | nil =>
      simp only [List.isEmpty_nil, Bool.not_true, Bool.false_eq_true, if_false, List.nil_append]
      split
      · rename_i hslashes
        obtain ⟨rest, rfl⟩ := List.isPrefixOf_iff_prefix.mp hslashes
        exact .inl ⟨rfl, .inr ⟨_, rfl⟩⟩
      · rename_i hslashes
        split
        · rename_i hempty
          refine .inl ⟨rfl, ?_⟩
          simp only [Bool.and_eq_true, Bool.or_eq_true] at hempty
          rcases hempty.2 with hempty | hslash
          · exact .inl (List.isEmpty_iff.mp hempty)
          · obtain ⟨rest, rfl⟩ := List.isPrefixOf_iff_prefix.mp hslash
            exact .inr ⟨rest, rfl⟩
        · exact .inr ⟨trivial, rfl, by simpa using hslashes⟩

theorem unsplit_rooted {scheme netloc path : Text} (query fragment : Text) (hscheme : scheme ≠ [])
    (hnetloc : netloc ≠ []) (hpath : path = [] ∨ ∃ p, path = '/' :: p) :
    unsplit scheme netloc path query fragment =
      scheme ++ ':' :: '/' :: '/' :: (netloc ++ (path ++ tailOf query fragment)) := by
  have hpart : schemePart scheme = scheme ++ [':'] := by simp [schemePart, hscheme]
  rcases withAuthority_cases scheme fun _ => hpath with ⟨hplaced, -⟩ | ⟨hnone, -⟩
  · rw [unsplit_eq, hplaced, hpart]
    simp only [List.append_assoc, List.cons_append, List.nil_append]
  · exact absurd hnone hnetloc

theorem tailOf_head {query fragment : Text} {c : Char}
    (h : (tailOf query fragment).head? = some c) : c = '?' ∨ c = '#' := by
  unfold tailOf queryPart at h
  split at h
  · split at h
    · cases h
    · obtain rfl : '#' = c := by simpa using h
      exact .inr rfl
  · obtain rfl : '?' = c := by simpa using h
    exact .inl rfl

theorem mem_tailOf {query fragment : Text} {c : Char} (h : c ∈ tailOf query fragment) :
    c = '?' ∨ c = '#' ∨ c ∈ query ∨ c ∈ fragment := by
  unfold tailOf queryPart at h
  rcases List.mem_append.mp h with h | h
  · split at h
    · cases h
    · rcases List.mem_cons.mp h with rfl | h
      · exact .inl rfl
      · exact .inr (.inr (.inl h))
  · split at h
    · cases h
    · rcases List.mem_cons.mp h with rfl | h
      · exact .inr (.inl rfl)
      · exact .inr (.inr (.inr h))

theorem not_unsafe_of_printable {c : Char} (h : isC0OrSpace c = false) : isUnsafeByte c = false := by
  have hne {d : Char} (hd : isC0OrSpace d = true) : c ≠ d := by
    rintro rfl
    rw [hd] at h
    cases h
  simp [isUnsafeByte, hne (show isC0OrSpace '\t' = true by decide),
    hne (show isC0OrSpace '\r' = true by decide), hne (show isC0OrSpace '\n' = true by decide)]

theorem stripped_head {url : Text} {c : Char} (h : (stripped url).head? = some c) :
    isC0OrSpace c = false := by
  have hstop := List.head?_dropWhile_not isC0OrSpace url
  unfold stripped Text.lstrip at h
  cases hrest : url.dropWhile isC0OrSpace with
  | nil =>
      rw [hrest] at h
      cases h
  | cons d ds =>
      rw [hrest] at h hstop
      have hd : isC0OrSpace d = false := by simpa using hstop
      rw [List.filter_cons_of_pos (by simp [not_unsafe_of_printable hd])] at h
      obtain rfl := Option.some.inj h
      exact hd

theorem stripped_self {url : Text} (hhead : ∀ c, url.head? = some c → isC0OrSpace c = false)
    (hsafe : ∀ c ∈ url, isUnsafeByte c = false) : stripped url = url := by
  have hkept : url.dropWhile isC0OrSpace = url := by
    cases url with
    | nil => rfl
    | cons c cs => exact List.dropWhile_cons_of_neg (by simp [hhead c rfl])
  rw [stripped, Text.lstrip, hkept, List.filter_eq_self]
  intro c hc
  simp [hsafe c hc]

theorem splitScheme_rooted (rest : Text) : splitScheme ('/' :: rest) = ([], '/' :: rest) := by
  rcases splitScheme_cases ('/' :: rest) with hsplit | ⟨scheme, after, heq, hscheme, -⟩
  · exact hsplit
  · obtain ⟨⟨c, cs, rfl, halpha⟩, -⟩ := hscheme.written
    obtain ⟨rfl, -⟩ := List.cons.inj heq
    exact absurd halpha (by decide)

theorem splitScheme_tail {path rest tail : Text} (h : (splitScheme (path ++ rest)).1 = [])
    (htail : ∀ c, tail.head? = some c → isDelimiter c = true) :
    splitScheme (path ++ tail) = ([], path ++ tail) := by
  rcases splitScheme_cases (path ++ tail) with hsplit | ⟨scheme, after, heq, hscheme, -⟩
  · exact hsplit
  have hchars := List.all_eq_true.mp hscheme.written.2
  have hinside (d : Char) (hd : isDelimiter d = true) : d ∉ scheme := by
    intro hmem
    have hchar := hchars d hmem
    simp only [isDelimiter, Bool.or_eq_true, beq_iff_eq] at hd
    rcases hd with (rfl | rfl) | rfl <;> exact absurd hchar (by decide)
  rcases List.append_eq_append_iff.mp heq with ⟨between, rfl, rfl⟩ | ⟨between, rfl, hafter⟩
  · cases between with
    | nil => exact absurd (htail ':' rfl) (by decide)
    | cons d ds => exact absurd (by simp) (hinside d (htail d rfl))
  · cases between with
    | nil =>
        rw [List.nil_append] at hafter
        rw [← hafter] at htail
        exact absurd (htail ':' rfl) (by decide)
    | cons d ds =>
        obtain ⟨rfl, -⟩ := List.cons.inj hafter
        -- the path has the scheme in it, whatever follows
        have hlead : splitScheme (scheme ++ ':' :: (ds ++ rest)) =
            (scheme.map Char.toLower, ds ++ rest) :=
          splitScheme_spelled hscheme (ds ++ rest)
        rw [List.append_assoc, List.cons_append, hlead] at h
        obtain ⟨c, cs, hcons, -⟩ := hscheme.leads
        rw [hcons] at h
        cases h

theorem resultOf_bare (scheme rest : Text) :
    ∃ more, rest = (resultOf scheme [] rest).path ++ more := by
  have hpart (sep : Char) (s : Text) : ∃ more, s = (Text.partition sep s).1 ++ more := by
    rcases Text.partition_cases sep s with ⟨-, hpart⟩ | ⟨before, after, -, rfl, hpart⟩
    · exact ⟨[], by rw [hpart, List.append_nil]⟩
    · exact ⟨sep :: after, by rw [hpart]⟩
  obtain ⟨more, hmore⟩ := hpart '#' rest
  obtain ⟨more', hmore'⟩ := hpart '?' (Text.partition '#' rest).1
  refine ⟨more' ++ more, ?_⟩
  rw [← List.append_assoc]
  change rest = (Text.partition '?' (Text.partition '#' rest).1).1 ++ more' ++ more
  rw [← hmore', ← hmore]

section Requeried

variable {uc : Unicode} {isIPv6 : Text → Bool} {url : Text} {r : SplitResult}

theorem urlsplit_fragment (h : urlsplit uc isIPv6 url = some r) {c : Char}
    (hc : c ∈ r.fragment) : isUnsafeByte c = false := by
  obtain ⟨-, rfl⟩ := urlsplit_some h
  exact (mem_stripped (mem_splitScheme_rest (mem_authority_rest (mem_partition_snd hc)))).2

theorem urlsplit_leads (h : urlsplit uc isIPv6 url = some r) (hscheme : r.scheme = [])
    (hnetloc : r.netloc = []) :
    (r.path = [] ∨ ∃ p, r.path = '/' :: p) ∨
      ∃ more, stripped url = r.path ++ more ∧ splitScheme (stripped url) = ([], stripped url) := by
  obtain ⟨-, rfl⟩ := urlsplit_some h
  have hnone : splitScheme (stripped url) = ([], stripped url) := by
    rcases splitScheme_cases (stripped url) with hsplit | ⟨scheme, rest, -, hscheme', hsplit⟩
    · exact hsplit
    · obtain ⟨c, cs, hcons, -⟩ := hscheme'.leads
      rw [hsplit] at hscheme
      rw [resultOf, hcons] at hscheme
      cases hscheme
  rcases authority_cases (splitScheme (stripped url)).2 with ⟨hbare, -⟩ | hdelimited
  · right
    rw [hbare, hnone]
    obtain ⟨more, hmore⟩ := resultOf_bare [] (stripped url)
    exact ⟨more, hmore, rfl⟩
  · exact .inl (resultOf_rooted hdelimited)

theorem urlsplit_of_parts {scheme body netloc tail : Text}
    (hsplit : splitScheme (stripped url) = (scheme, body)) (hauthority : authority body = (netloc, tail))
    (hok : acceptable uc isIPv6 netloc = true) :
    urlsplit uc isIPv6 url = some (resultOf scheme netloc tail) := by
  rw [urlsplit_eq, hsplit]
  dsimp only
  rw [hauthority, if_pos hok]

theorem splitScheme_part {scheme body : Text} (hscheme : scheme = [] ∨ IsScheme scheme)
    (hsafe : ∀ c ∈ body, isUnsafeByte c = false)
    (hbare : scheme = [] → (∀ c, body.head? = some c → isC0OrSpace c = false) ∧
      splitScheme body = ([], body)) :
    splitScheme (stripped (schemePart scheme ++ body)) = (scheme, body) := by
  rcases hscheme with rfl | hscheme
  · obtain ⟨hhead, hsplit⟩ := hbare rfl
    have hpart : schemePart [] ++ body = body := rfl
    rw [hpart, stripped_self hhead hsafe, hsplit]
  · have hpart : schemePart scheme ++ body = scheme ++ ':' :: body := by
      obtain ⟨c, cs, rfl, -⟩ := hscheme.leads
      simp [schemePart]
    have hkept : body.filter (fun c => !isUnsafeByte c) = body := by
      rw [List.filter_eq_self]
      intro c hc
      simp [hsafe c hc]
    rw [hpart, stripped_scheme hscheme, hkept, hscheme.split]

theorem delimiter_printable {c : Char} (h : isDelimiter c = true) : isC0OrSpace c = false := by
  simp only [isDelimiter, Bool.or_eq_true, beq_iff_eq] at h
  rcases h with (rfl | rfl) | rfl <;> rfl

theorem startsWith_tail {path query fragment : Text}
    (h : Text.startsWith ['/', '/'] path = false) :
    Text.startsWith ['/', '/'] (path ++ tailOf query fragment) = false := by
  have htail (c : Char) (hc : (tailOf query fragment).head? = some c) : c = '?' ∨ c = '#' :=
    tailOf_head hc
  generalize tailOf query fragment = tail at htail
  match path, tail with
  | [], [] => rfl
  | [], t :: ts =>
      rcases htail t rfl with rfl | rfl <;> rfl
  | [c], [] => exact h
  | [c], t :: ts =>
      rcases htail t rfl with rfl | rfl <;> exact Bool.and_false _
  | c :: d :: rest, tail => exact h

theorem rooted_head {path tail : Text} (hpath : path = [] ∨ ∃ p, path = '/' :: p)
    (htail : ∀ c, tail.head? = some c → isDelimiter c = true) :
    ∀ c, (path ++ tail).head? = some c → isDelimiter c = true := by
  rcases hpath with rfl | ⟨p, rfl⟩
  · exact htail
  · rintro c ⟨⟩
    rfl

theorem requeried_safe (h : urlsplit uc isIPv6 url = some r) {query : Text}
    (hquery : ∀ c ∈ query, isUnsafeByte c = false) :
    ∀ c ∈ r.path ++ tailOf query r.fragment, isUnsafeByte c = false := by
  intro c hc
  rcases List.mem_append.mp hc with hc | hc
  · exact (urlsplit_path h hc).2.2
  · rcases mem_tailOf hc with rfl | rfl | hc | hc
    · rfl
    · rfl
    · exact hquery c hc
    · exact urlsplit_fragment h hc

theorem splitScheme_path (h : urlsplit uc isIPv6 url = some r) (hscheme : r.scheme = [])
    (hnetloc : r.netloc = []) {tail : Text}
    (htail : ∀ c, tail.head? = some c → isDelimiter c = true) :
    (∀ c, (r.path ++ tail).head? = some c → isC0OrSpace c = false) ∧
      splitScheme (r.path ++ tail) = ([], r.path ++ tail) := by
  rcases urlsplit_leads h hscheme hnetloc with hpath | ⟨more, hmore, hnone⟩
  · refine ⟨fun c hc => delimiter_printable (rooted_head hpath htail c hc), ?_⟩
    rcases hpath with hpath | ⟨p, hpath⟩
    · have hnil : (splitScheme ([] ++ [])).1 = [] := rfl
      rw [hpath]
      exact splitScheme_tail hnil htail
    · rw [hpath]
      exact splitScheme_rooted _
  · rw [hmore] at hnone
    refine ⟨fun c hc => ?_, splitScheme_tail (by rw [hnone]) htail⟩
    cases hpath : r.path with
    | nil =>
        rw [hpath] at hc
        exact delimiter_printable (htail c hc)
    | cons d ds =>
        rw [hpath] at hc hmore
        obtain rfl := Option.some.inj hc
        exact stripped_head (by rw [hmore]; rfl)

theorem urlsplit_unsplit (h : urlsplit uc isIPv6 url = some r) {query : Text}
    (hquery : ∀ c ∈ query, isUnsafeByte c = false) :
    urlsplit uc isIPv6 (unsplit r.scheme r.netloc r.path query r.fragment) =
      some (resultOf r.scheme r.netloc (r.path ++ tailOf query r.fragment)) := by
  have hok : acceptable uc isIPv6 r.netloc = true := by
    obtain ⟨hok, rfl⟩ := urlsplit_some h
    exact hok
  have htail : ∀ c, (tailOf query r.fragment).head? = some c → isDelimiter c = true := by
    intro c hc
    rcases tailOf_head hc with rfl | rfl <;> rfl
  have hsafe := requeried_safe h hquery
  rw [unsplit_eq]
  rcases withAuthority_cases r.scheme (urlsplit_rooted h) with
    ⟨hplaced, hpath⟩ | ⟨hnetloc, hplaced, hstart⟩
  · have hbody : withAuthority r.scheme r.netloc r.path ++ tailOf query r.fragment =
        '/' :: '/' :: (r.netloc ++ (r.path ++ tailOf query r.fragment)) := by
      rw [hplaced, List.cons_append, List.cons_append, List.append_assoc]
    rw [hbody]
    apply urlsplit_of_parts (splitScheme_part (urlsplit_scheme h) ?_ ?_) ?_ hok
    · intro c hc
      simp only [List.mem_cons, List.mem_append (s := r.netloc)] at hc
      rcases hc with rfl | rfl | hc | hc
      · rfl
      · rfl
      · exact (urlsplit_netloc h hc).2
      · exact hsafe c hc
    · intro _
      refine ⟨?_, splitScheme_rooted _⟩
      rintro c ⟨⟩
      rfl
    · exact authority_append (fun c hc => (urlsplit_netloc h hc).1) (rooted_head hpath htail)
  · rw [hplaced]
    apply urlsplit_of_parts (splitScheme_part (urlsplit_scheme h) hsafe ?_) ?_ hok
    · intro hscheme
      exact splitScheme_path h hscheme hnetloc htail
    · rw [authority, if_neg (by simp [startsWith_tail hstart]), hnetloc]

theorem urlsplit_requeried (h : urlsplit uc isIPv6 url = some r) {query : Text}
    (hquery : ∀ c ∈ query, isUnsafeByte c = false) :
    ∃ r', urlsplit uc isIPv6 (unsplit r.scheme r.netloc r.path query r.fragment) = some r' ∧
      r'.scheme = r.scheme ∧ r'.netloc = r.netloc :=
  ⟨_, urlsplit_unsplit h hquery, rfl, rfl⟩

theorem resultOf_tail (scheme netloc : Text) {path query fragment : Text}
    (hpath : ∀ c ∈ path, c ≠ '?' ∧ c ≠ '#') (hquery : '#' ∉ query) :
    resultOf scheme netloc (path ++ tailOf query fragment) =
      ⟨scheme, netloc, path, query, fragment⟩ := by
  cases fragment with
  | nil =>
      have htail : tailOf query [] = queryPart query := List.append_nil _
      rw [htail]
      apply resultOf_parts scheme netloc hpath
      rintro c hc rfl
      exact hquery hc
  | cons f fs =>
      have hhash : '#' ∉ path ++ queryPart query :=
        hash_outside (fun hmem => (hpath _ hmem).2 rfl) hquery
      have htail : path ++ tailOf query (f :: fs) = (path ++ queryPart query) ++ '#' :: f :: fs := by
        simp [tailOf]
      have hmark : '?' ∉ path := fun hmem => (hpath _ hmem).1 rfl
      unfold resultOf
      rw [htail, Text.partition_append hhash]
      cases query with
      | nil => simp [queryPart, Text.partition_none hmark]
      | cons c cs => simp [queryPart, Text.partition_append hmark]

/-- Only the query of the address is another. -/
theorem urlsplit_requery (h : urlsplit uc isIPv6 url = some r) {query : Text}
    (hquery : ∀ c ∈ query, c ≠ '#' ∧ isUnsafeByte c = false) :
    urlsplit uc isIPv6 (unsplit r.scheme r.netloc r.path query r.fragment) =
      some ⟨r.scheme, r.netloc, r.path, query, r.fragment⟩ := by
  rw [urlsplit_unsplit h fun c hc => (hquery c hc).2, resultOf_tail]
  · exact fun c hc => ⟨(urlsplit_path h hc).1, (urlsplit_path h hc).2.1⟩
  · exact fun hmem => (hquery '#' hmem).1 rfl

end Requeried

variable (uc : Unicode) (isIPv6 : Text → Bool)

/-- The query and the fragment of a text, if the text has any. -/
def markedParts (url : Text) : Option Text × Option Text :=
  let (rest, hash, fragment) := Text.partition '#' (authority (splitScheme (stripped url)).2).2
  let (_, mark, query) := Text.partition '?' rest
  (if mark then some query else none, if hash then some fragment else none)

/-- The segments of a path with `.` and `..` taken out; the first argument is the path so far,
last segment first. -/
def resolveSegments : List Text → List Text → List Text
  | resolved, [] => resolved.reverse
  | resolved, segment :: rest =>
      if segment == "..".toList then resolveSegments resolved.tail rest
      else if segment == ".".toList then resolveSegments resolved rest
      else resolveSegments (segment :: resolved) rest

def isDots (segment : Text) : Bool := segment == ".".toList || segment == "..".toList

/-- Empty segments inside a path are left out. -/
def squeezeSegments (segments : List Text) : List Text :=
  match segments with
  | first :: rest => first :: rest.dropLast.filter (fun s => !s.isEmpty) ++ rest.getLast?.toList
  | [] => []

def resolvePath (basePath path : Text) : Text :=
  let baseParts := basePath.splitOn '/'
  let baseParts := if baseParts.getLast? = some [] then baseParts else baseParts.dropLast
  let segments :=
    if Text.startsWith ['/'] path then path.splitOn '/'
    else squeezeSegments (baseParts ++ path.splitOn '/')
  let resolved := resolveSegments [] segments
  let resolved := if segments.getLast?.any isDots then resolved ++ [[]] else resolved
  let joined := Text.join ['/'] resolved
  if joined.isEmpty then ['/'] else joined

/-- `none` is the `ValueError` of either part. -/
def urljoin (base url : Text) : Option Text :=
  if base.isEmpty then some url
  else if url.isEmpty then some base
  else
    (urlsplit uc isIPv6 base).bind fun b =>
      (urlsplit uc isIPv6 url).map fun u =>
        let (query, fragment) := markedParts url
        let scheme := if u.scheme.isEmpty then b.scheme else u.scheme
        if scheme != b.scheme || (!scheme.isEmpty && !usesRelative.contains scheme) then url
        else
          let rooted := scheme.isEmpty || usesNetloc.contains scheme
          if rooted && !u.netloc.isEmpty then joinParts scheme u.netloc u.path query fragment
          else
            let netloc := if rooted then b.netloc else u.netloc
            if u.path.isEmpty then
              match query, fragment with
              | none, none => joinParts scheme netloc b.path (markedParts base).1 (markedParts base).2
              | none, some f => joinParts scheme netloc b.path (markedParts base).1 (some f)
              | some q, f => joinParts scheme netloc b.path (some q) f
            else joinParts scheme netloc (resolvePath b.path u.path) query fragment

/-- `parse_qsl`, which leaves out parameters without a value. -/
def parseQslValues (query : Text) : List (Text × Text) :=
  ((query.splitOn '&').filter fun part => !(Text.partition '=' part).2.2.isEmpty).map fun part =>
    let (name, _, value) := Text.partition '=' part
    (unquotePlus name, unquotePlus value)

example : urljoin .ascii (fun _ => false) "http://a.fi/b/c?d#e".toList "../f?g".toList =
    some "http://a.fi/f?g".toList := by decide +kernel

end LeadPipe.Urllib
