import LeadPipe.Normalization.Tidy

/-!
# Hosts and ports

What `urlsplit` can find as a host, and when it reads a port without raising.
-/

namespace LeadPipe

open Urllib

variable {env : Platform}

/-- The characters of a host that `urlsplit` found. -/
structure HostText (d : Text) : Prop where
  inside : ∀ c ∈ d, isDelimiter c = false
  safe : ∀ c ∈ d, isUnsafeByte c = false
  user : '@' ∉ d
  brackets : '[' ∉ d ∨ ']' ∉ d

theorem mem_hostname (huc : env.unicode.LowersText) {r : SplitResult} {host : Text}
    (h : r.hostname env.unicode = some host) {c : Char} (hc : c ∈ host)
    (hplain : c.toNat < 128 ∧ c.isAlpha = false) : c ∈ r.hostinfo.1 := by
  unfold SplitResult.hostname at h
  dsimp only at h
  split at h
  · cases h
  · obtain rfl := Option.some.inj h
    rcases Text.partition_cases '%' r.hostinfo.1 with ⟨-, hpart⟩ | ⟨name, zone, -, hinfo, hpart⟩
    · rw [hpart] at hc
      simp only [Bool.false_eq_true, if_false, List.append_nil] at hc
      exact huc.fresh _ c hc (.inr hplain)
    · rw [hpart] at hc
      simp only [if_true, List.append_assoc, List.mem_append, List.mem_singleton] at hc
      rw [hinfo, List.mem_append, List.mem_cons]
      rcases hc with hc | hc | hc
      · exact .inl (huc.fresh name c hc (.inr hplain))
      · exact .inr (.inl hc)
      · exact .inr (.inr hc)

theorem extractDomain_host (huc : env.unicode.LowersText) {url : Option Text} {d : Text}
    (h : extractDomain env url = some d) : HostText d := by
  obtain ⟨u, -, h⟩ := Option.bind_eq_some_iff.mp h
  obtain ⟨parsed, hparsed, h⟩ := Option.bind_eq_some_iff.mp h
  obtain ⟨host, hhost, rfl⟩ := Option.map_eq_some_iff.mp h
  have hinfo {c : Char} (hc : c ∈ Text.removePrefix wwwPrefix host)
      (hplain : c.toNat < 128 ∧ c.isAlpha = false) : c ∈ parsed.hostinfo.1 :=
    mem_hostname huc hhost (mem_siteHost hc) hplain
  have hnetloc {c : Char} (hc : c ∈ Text.removePrefix wwwPrefix host)
      (hplain : c.toNat < 128 ∧ c.isAlpha = false) :
      isDelimiter c = false ∧ isUnsafeByte c = false :=
    urlsplit_netloc hparsed (mem_hostinfo (hinfo hc hplain)).2
  refine ⟨fun c hc => ?_, fun c hc => ?_, fun hc => ?_, ?_⟩
  · by_contra hdelimiter
    rw [Bool.not_eq_false] at hdelimiter
    have hplain : c.toNat < 128 ∧ c.isAlpha = false := by
      simp only [isDelimiter, Bool.or_eq_true, beq_iff_eq] at hdelimiter
      rcases hdelimiter with (rfl | rfl) | rfl
      all_goals decide
    rw [(hnetloc hc hplain).1] at hdelimiter
    cases hdelimiter
  · by_contra hunsafe
    rw [Bool.not_eq_false] at hunsafe
    have hplain : c.toNat < 128 ∧ c.isAlpha = false := by
      simp only [isUnsafeByte, Bool.or_eq_true, beq_iff_eq] at hunsafe
      rcases hunsafe with (rfl | rfl) | rfl
      all_goals decide
    rw [(hnetloc hc hplain).2] at hunsafe
    cases hunsafe
  · exact (mem_hostinfo (hinfo hc (by decide))).1 rfl
  · rcases hostinfo_brackets parsed with hopen | hclose
    · exact .inl fun hc => hopen (hinfo hc (by decide))
    · exact .inr fun hc => hclose (hinfo hc (by decide))

/-- A port that `urlsplit` reads without raising. -/
def isPort (port : Text) : Bool :=
  port.isEmpty || (Text.isDigit port && port.length ≤ SplitResult.maxIntDigits &&
    Text.toNat port ≤ 65535)

theorem isPort_digits {port : Text} (h : isPort port = true) : ∀ c ∈ port, c.isDigit = true := by
  intro c hc
  unfold isPort at h
  rcases Bool.or_eq_true_iff.mp h with hempty | hdigit
  · rw [List.isEmpty_iff.mp hempty] at hc
    cases hc
  · simp only [Bool.and_eq_true, Text.isDigit, List.all_eq_true] at hdigit
    exact hdigit.1.1.2 c hc

theorem port_isSome {r : SplitResult} {host port : Text} (h : r.hostinfo = (host, Text.orNone port)) :
    r.port.isSome = isPort port := by
  unfold SplitResult.port isPort
  rw [h]
  cases hempty : port.isEmpty with
  | true => simp [Text.orNone, hempty]
  | false =>
      simp only [Text.orNone, hempty, Bool.false_eq_true, if_false, Bool.false_or]
      split
      · rename_i hok
        rw [hok]
        rfl
      · rename_i hbad
        rw [Bool.not_eq_true] at hbad
        rw [hbad]
        rfl

theorem siteText_lower {d : Text} (h : ∀ c ∈ d, isSiteChar c = true) (uc : Unicode) :
    uc.lower d = d := by
  have hascii : Text.isAscii d = true := by
    rw [Text.isAscii, List.all_eq_true]
    intro c hc
    have hplain := (Bool.and_eq_true_iff.mp (siteChar_plain (h c hc))).1
    exact decide_eq_true (authorityChar_ascii hplain)
  rw [uc.lower_ascii d hascii]
  exact (List.map_congr_left fun c hc => siteChar_toLower (h c hc)).trans (List.map_id _)

theorem authorityChar_visible {c : Char} (h : isAuthorityChar c = true) : 32 < c.toNat := by
  simp only [isAuthorityChar, Bool.or_eq_true, beq_iff_eq] at h
  rcases h with ((halnum | rfl) | rfl) | rfl
  · rw [Text.isAlphanum_iff, Text.isAlpha_iff, Text.isUpper_iff, Text.isLower_iff,
      Text.isDigit_iff] at halnum
    omega
  all_goals decide

theorem authorityText_space {d : Text} (h : ∀ c ∈ d, isAuthorityChar c = true) (uc : Unicode) :
    ∀ c ∈ d, uc.isSpace c = false :=
  fun c hc => visible_space ⟨authorityChar_visible (h c hc), authorityChar_ascii (h c hc)⟩ uc

theorem queryChar_space {c : Char} (h : isQueryChar c = true) (uc : Unicode) :
    uc.isSpace c = false := by
  apply visible_space
  simp only [isQueryChar, isAlwaysSafe, Bool.or_eq_true, beq_iff_eq] at h
  rcases h with (((((((halnum | rfl) | rfl) | rfl) | rfl) | rfl) | rfl) | rfl) | rfl
  · rw [Text.isAlphanum_iff, Text.isAlpha_iff, Text.isUpper_iff, Text.isLower_iff,
      Text.isDigit_iff] at halnum
    omega
  all_goals decide

/-- The domain of the normal form has lost `www.` twice. -/
theorem extractDomain_site {text : Text} {site : Site} (h : readSite env text = some site)
    (hscheme : IsScheme site.parts.scheme) :
    extractDomain env (some (writtenSite env text)) =
      some (siteHost (siteHost (bareHost site.host))) := by
  rw [writtenSite_some h, extractDomain, Option.bind_some,
    Site.urlsplit_address h hscheme, Option.bind_some, hostname_address h rfl]
  rfl

theorem readSite_spelled {text written host port tail : Text}
    (hweb : webAddress env text = some (withScheme text))
    (htext : withScheme text = written ++ ':' :: '/' :: '/' :: ((host ++ port) ++ tail))
    (hscheme : IsScheme (written.map Char.toLower)) (hhost : ∀ c ∈ host, isPlainHostChar c = true)
    (hname : isHostname (host.map Char.toLower) = true)
    (hport : port = [] ∨ ∃ digits, port = ':' :: digits ∧ isPort digits = true)
    (htail : ∀ c, tail.head? = some c → isDelimiter c = true)
    (hsafe : ∀ c ∈ tail, isUnsafeByte c = false) :
    ∃ site, readSite env text = some site ∧
      site.parts = resultOf (written.map Char.toLower) (host ++ port) tail ∧
        site.host = host.map Char.toLower := by
  have hdigits : port = [] ∨ ∃ digits, port = ':' :: digits ∧
      ∀ c ∈ digits, isAuthorityChar c = true := by
    refine hport.imp_right ?_
    rintro ⟨digits, rfl, hdigits⟩
    refine ⟨digits, rfl, fun c hc => ?_⟩
    rw [isAuthorityChar, Text.isAlphanum_iff.mpr (.inr (isPort_digits hdigits c hc))]
    rfl
  have hnetloc : ∀ c ∈ host ++ port, isAuthorityChar c = true := by
    intro c hc
    rcases List.mem_append.mp hc with hc | hc
    · exact (Bool.and_eq_true_iff.mp (hhost c hc)).1
    · rcases hdigits with rfl | ⟨digits, rfl, hdigits⟩
      · cases hc
      · rcases List.mem_cons.mp hc with rfl | hc
        · rfl
        · exact hdigits c hc
  have hsplit := urlsplit_spelled env.unicode env.isIPv6 hscheme
    (fun c hc => ⟨authorityChar_inside (hnetloc c hc), authorityChar_safe (hnetloc c hc)⟩)
    (netloc_acceptable _ _ hnetloc) htail hsafe
  rw [← htext] at hsplit
  have hinfo := hostinfo_plain (r := resultOf (written.map Char.toLower) (host ++ port) tail) hhost
    hdigits rfl
  have hne : host ≠ [] := by
    rintro rfl
    exact absurd hname (by decide)
  have hfound : (resultOf (written.map Char.toLower) (host ++ port) tail).hostname env.unicode =
      some (host.map Char.toLower) := hostname_spelled hhost hne hinfo
  have hread : isPort (port.drop 1) = true := by
    rcases hport with rfl | ⟨digits, rfl, hnumber⟩
    · rfl
    · exact hnumber
  obtain ⟨number, hnumber⟩ := Option.isSome_iff_exists.mp ((port_isSome hinfo).trans hread)
  refine ⟨⟨resultOf (written.map Char.toLower) (host ++ port) tail, host.map Char.toLower, number⟩,
    ?_, rfl, rfl⟩
  unfold readSite
  rw [hweb, Option.bind_some, hsplit, Option.bind_some, hfound, Option.bind_some, hnumber,
    Option.bind_some, if_pos hname]

end LeadPipe
