import LeadPipe.Normalization.Fields
import LeadPipe.Normalization.Emails
import LeadPipe.Normalization.Hosts
import LeadPipe.Privacy.Erasure
import LeadPipe.Validation.Websites

/-!
# Suppressing what is stored

Suppressions normalise their values a second time. A stored address is suppressed as itself
unless the second reading takes another `mailto:` or another bracket off it, and a stored domain
unless it reads as a site of its own whose host is shorter.
-/

namespace LeadPipe

open Framework Urllib

variable (env : Platform)

/-- There is nothing to take off the address, or nothing else in it. -/
def SettledEmail (e : Text) : Prop :=
  bareEmail env e = [] ∨ (Text.startsWith "mailto:".toList e = false ∧ Text.Bounded isAngle e)

variable {env}

theorem normalizeValue_email (huc : env.unicode.LowersText) {e : Text}
    (hclean : Cleaned env.unicode e) (hlower : env.unicode.lower e = e) :
    normalizeValue env .email e = if bareEmail env e = [] then e else bareEmail env e := by
  have hbare : env.unicode.lower (bareEmail env e) = bareEmail env e :=
    huc.part e _ (bareEmail_within e) hlower
  have hstrip : strip env e = e := hclean.bounded.strip
  have hvalue : normalizeValue env .email e =
      Text.orElse (normalizeEmail env (some e)) (env.unicode.lower (strip env e)) := rfl
  rw [hvalue, normalizeEmail_eq, hclean.cleanText, Option.bind_some, hbare, hstrip, hlower]
  by_cases hempty : bareEmail env e = []
  · rw [hempty]
    rfl
  · have hne : (bareEmail env e).isEmpty = false := by simpa using hempty
    rw [if_neg hempty, Text.orNone, hne]
    simp [Text.orElse, hempty]

theorem normalizeValue_email_iff (huc : env.unicode.LowersText) {value : Option Text} {e : Text}
    (h : normalizeEmail env value = some e) :
    normalizeValue env .email e = e ↔ SettledEmail env e := by
  obtain ⟨hclean, hlower⟩ := normalizeEmail_some huc h
  rw [normalizeValue_email huc hclean hlower, SettledEmail, ← bareEmail_eq_self hclean.bounded]
  by_cases hempty : bareEmail env e = []
  · simp [hempty]
  · simp [hempty]

variable (env)

/-- Read as a site of its own, the domain has no `www.` and no port to lose; and it is in lower
case and stripped. -/
def SettledDomain (d : Text) : Prop :=
  env.unicode.lower d = d ∧ strip env d = d ∧
    ¬(isHostname (Text.partition ':' d).1 = true ∧ isPort (Text.partition ':' d).2.2 = true ∧
      (Text.startsWith wwwPrefix d = true ∨ ':' ∈ d))

variable {env}

namespace HostText

variable {d t : Text}

theorem cleaned (h : HostText d) (ht : cleanText env (some d) = some t) : HostText t := by
  have hkept {c : Char} (hc : c ∈ t) (hne : c ≠ ' ') : c ∈ d :=
    ((mem_cleanText ht hc).resolve_left hne).1
  refine ⟨fun c hc => ?_, cleanText_safe ht, fun hc => h.user (hkept hc (by decide)), ?_⟩
  · rcases mem_cleanText ht hc with rfl | ⟨hc, -⟩
    · rfl
    · exact h.inside c hc
  · exact h.brackets.imp (fun hopen hc => hopen (hkept hc (by decide)))
      fun hclose hc => hclose (hkept hc (by decide))

theorem no_slash (h : HostText t) : '/' ∉ t := by
  intro hc
  exact absurd (h.inside _ hc) (by decide)

theorem no_scheme (h : HostText t) : hasScheme t = false := by
  rw [← Bool.not_eq_true]
  intro hscheme
  unfold hasScheme Text.containsSub at hscheme
  obtain ⟨after, hafter, hstart⟩ := List.any_eq_true.mp hscheme
  apply h.no_slash
  apply ((List.mem_tails _ _).mp hafter).subset
  exact (List.isPrefixOf_iff_prefix.mp hstart).subset (by decide)

theorem no_domain (h : HostText t) : extractDomain env (some t) = none := by
  have hbare : (authority (splitScheme (stripped t)).2).1 = [] := by
    by_contra hnetloc
    obtain ⟨after, hafter⟩ := authority_starts hnetloc
    apply h.no_slash
    apply (mem_stripped (mem_splitScheme_rest ?_)).1
    rw [hafter]
    exact List.mem_cons_self
  rw [extractDomain, Option.bind_some, urlsplit_bare hbare]
  rfl

theorem urlsplit_withScheme (h : HostText t) :
    urlsplit env.unicode env.isIPv6 (withScheme t) =
      if acceptable env.unicode env.isIPv6 t then some (resultOf "https".toList t []) else none := by
  have haddress : withScheme t = "https".toList ++ ':' :: '/' :: '/' :: t := by
    simp [withScheme, h.no_scheme]
  have hkept : ('/' :: '/' :: t).filter (fun c => !isUnsafeByte c) = '/' :: '/' :: t := by
    have hsafe : t.filter (fun c => !isUnsafeByte c) = t :=
      List.filter_eq_self.mpr fun c hc => by simp [h.safe c hc]
    rw [List.filter_cons_of_pos (by decide), List.filter_cons_of_pos (by decide), hsafe]
  have hparts : authority ('/' :: '/' :: t) = (t, []) := by
    have happend : authority ('/' :: '/' :: (t ++ [])) = (t, []) :=
      authority_append h.inside (by simp)
    rwa [List.append_nil] at happend
  rw [haddress, urlsplit_eq, stripped_scheme .https, hkept, IsScheme.https.split, hparts]

theorem hostinfo (h : HostText t) (hok : acceptable env.unicode env.isIPv6 t = true)
    {r : SplitResult} (hr : r.netloc = t) :
    r.hostinfo = ((Text.partition ':' t).1, Text.orNone (Text.partition ':' t).2.2) := by
  have huser : (Text.rpartition '@' r.netloc).2.2 = t := by
    rw [hr, Text.rpartition_none h.user]
  rcases hostinfo_cases r with ⟨-, hinfo⟩ | ⟨before, after, hopen, -⟩
  · rwa [huser] at hinfo
  · rw [huser] at hopen
    have hmem : '[' ∈ t := by simp [hopen]
    have hclose : ']' ∉ t := h.brackets.resolve_left (fun hno => hno hmem)
    have hopened : t.contains '[' = true := by simpa using hmem
    have hclosed : t.contains ']' = false := by simpa using hclose
    rw [acceptable, hopened, hclosed] at hok
    cases hok

end HostText

namespace HostText

variable {d t : Text}

theorem readSite_some (h : HostText t) {site : Site} (hread : readSite env t = some site) :
    site.parts.scheme = "https".toList ∧
      site.host = env.unicode.lower (Text.partition ':' t).1 ∧
      isPort (Text.partition ':' t).2.2 = true := by
  obtain ⟨-, hsplit, hhost, hport, hname⟩ := LeadPipe.readSite_some hread
  rw [h.urlsplit_withScheme] at hsplit
  split at hsplit
  · rename_i hok
    have hparts := Option.some.inj hsplit
    have hinfo := h.hostinfo hok (r := site.parts) (by rw [← hparts]; rfl)
    refine ⟨by rw [← hparts]; rfl, ?_, ?_⟩
    · unfold SplitResult.hostname at hhost
      rw [hinfo] at hhost
      dsimp only at hhost
      split at hhost
      · cases hhost
      · have hhost := Option.some.inj hhost
        rcases Text.partition_cases '%' (Text.partition ':' t).1 with
          ⟨-, hpart⟩ | ⟨name, zone, -, -, hpart⟩
        · rw [hpart] at hhost
          simpa using hhost.symm
        · -- a host name has no zone
          rw [hpart] at hhost
          have hpercent : '%' ∈ site.host := by simp [← hhost]
          rcases hostname_char hname hpercent with hchar | hfeed
          · exact absurd hchar (by decide)
          · exact absurd hfeed (by decide)
    · rw [← port_isSome hinfo, hport]
      rfl
  · cases hsplit

theorem extractDomain_writtenSite (h : HostText t) :
    extractDomain env (some (writtenSite env t)) =
      (readSite env t).map fun site => siteHost (siteHost (bareHost site.host)) := by
  cases hread : readSite env t with
  | none =>
      rw [writtenSite_none hread]
      exact h.no_domain
  | some site =>
      obtain ⟨hscheme, -, -⟩ := h.readSite_some hread
      have hweb : IsScheme site.parts.scheme := by
        rw [hscheme]
        exact IsScheme.https
      exact extractDomain_site hread hweb

theorem normalizeValue_site (h : HostText d) (ht : cleanText env (some d) = some t) {site : Site}
    (hread : readSite env t = some site) :
    normalizeValue env .domain d = siteHost (siteHost (bareHost site.host)) := by
  obtain ⟨-, -, -, -, hname⟩ := LeadPipe.readSite_some hread
  have hdomain : extractDomain env (normalizeUrl env (some d)) =
      some (siteHost (siteHost (bareHost site.host))) := by
    rw [normalizeUrl_eq, ht, Option.map_some]
    rw [(h.cleaned ht).extractDomain_writtenSite, hread]
    rfl
  have hne := siteHost_siteHost_ne_nil hname
  unfold normalizeValue
  simp [hdomain, Text.orElse, hne]

theorem normalizeValue_plain (h : HostText d)
    (hplain : ∀ t, cleanText env (some d) = some t → readSite env t = none) :
    normalizeValue env .domain d = env.unicode.lower (strip env d) := by
  have hdomain : extractDomain env (normalizeUrl env (some d)) = none := by
    rw [normalizeUrl_eq]
    cases ht : cleanText env (some d) with
    | none => rfl
    | some t =>
        rw [Option.map_some]
        rw [(h.cleaned ht).extractDomain_writtenSite, hplain t ht]
        rfl
  unfold normalizeValue
  simp [hdomain, Text.orElse]

theorem startsWith_host (pre : Text) (hcolon : ':' ∉ pre)
    (hstart : Text.startsWith (pre ++ [':']) d = true) : (Text.partition ':' d).1 = pre := by
  obtain ⟨rest, rfl⟩ := List.isPrefixOf_iff_prefix.mp hstart
  rw [List.append_assoc, List.singleton_append, Text.partition_append hcolon]

theorem hostChars (h : HostText d) (hname : isHostname (Text.partition ':' d).1 = true) :
    ∀ c ∈ (Text.partition ':' d).1, isSiteChar c = true := by
  intro c hc
  rcases hostname_char hname hc with hchar | rfl
  · exact hchar
  · exact absurd (h.safe _ (mem_partition_fst hc).2) (by decide)

theorem authorityChars (h : HostText d) (hname : isHostname (Text.partition ':' d).1 = true)
    (hport : isPort (Text.partition ':' d).2.2 = true) : ∀ c ∈ d, isAuthorityChar c = true := by
  intro c hc
  have hsite {c : Char} (hc : c ∈ (Text.partition ':' d).1) : isAuthorityChar c = true :=
    (Bool.and_eq_true_iff.mp (siteChar_plain (h.hostChars hname c hc))).1
  rcases Text.partition_cases ':' d with ⟨-, hpart⟩ | ⟨host, port, -, hd, hpart⟩
  · apply hsite
    rwa [hpart]
  · rw [hd, List.mem_append, List.mem_cons] at hc
    rw [hpart] at hport hsite
    rcases hc with hc | rfl | hc
    · exact hsite hc
    · rfl
    · rw [isAuthorityChar, Text.isAlphanum_iff.mpr (.inr (isPort_digits hport c hc))]
      rfl

theorem readSite_host (h : HostText d) (hlower : env.unicode.lower d = d)
    (hname : isHostname (Text.partition ':' d).1 = true)
    (hport : isPort (Text.partition ':' d).2.2 = true) : ∃ site, readSite env d = some site := by
  have hlink : contactLink env d = false := by
    have hmail : Text.startsWith "mailto:".toList d = false := by
      rw [← Bool.not_eq_true]
      intro hstart
      rw [startsWith_host "mailto".toList (by decide) hstart] at hname
      exact absurd hname (by decide)
    have htel : Text.startsWith "tel:".toList d = false := by
      rw [← Bool.not_eq_true]
      intro hstart
      rw [startsWith_host "tel".toList (by decide) hstart] at hname
      exact absurd hname (by decide)
    rw [contactLink, hlower, hmail, htel, Bool.or_self, Bool.and_false]
  have hother : otherScheme env d = false := by rw [otherScheme, h.no_scheme, Bool.false_and]
  have hweb : webAddress env d = some (withScheme d) := by simp [webAddress, hother, hlink]
  have hok := netloc_acceptable env.unicode env.isIPv6 (h.authorityChars hname hport)
  have hinfo := h.hostinfo hok (r := resultOf "https".toList d []) rfl
  have hhost := h.hostChars hname
  have hfound : (resultOf "https".toList d []).hostname env.unicode =
      some (Text.partition ':' d).1 := by
    apply hostname_plain (fun c hc => siteChar_plain (hhost c hc)) ?_ ?_ hinfo
    · exact (List.map_congr_left fun c hc => siteChar_toLower (hhost c hc)).trans (List.map_id _)
    · intro hempty
      rw [hempty] at hname
      exact absurd hname (by decide)
  obtain ⟨port, hport⟩ := Option.isSome_iff_exists.mp ((port_isSome hinfo).trans hport)
  refine ⟨⟨resultOf "https".toList d [], (Text.partition ':' d).1, port⟩, ?_⟩
  unfold readSite
  rw [hweb, Option.bind_some, h.urlsplit_withScheme, if_pos hok, Option.bind_some, hfound,
    Option.bind_some, hport, Option.bind_some, if_pos hname]

end HostText

theorem siteHost_eq_self {d : Text} :
    siteHost (siteHost d) = d ↔ Text.startsWith wwwPrefix d = false := by
  rw [← Text.removePrefix_eq_self (by decide : wwwPrefix ≠ [])]
  constructor
  · intro hsame
    have hlong : d <:+: siteHost d := by
      conv_lhs => rw [← hsame]
      exact Text.removePrefix_within _ _
    exact (Text.removePrefix_within wwwPrefix d).eq_of_length_le hlong.length_le
  · intro hsame
    unfold siteHost
    rw [hsame, hsame]

theorem HostText.no_blank (huc : env.unicode.LowersText) {d t : Text} (h : HostText d)
    (ht : cleanText env (some d) = some t) {site : Site} (hread : readSite env t = some site) :
    ' ' ∉ t := by
  obtain ⟨-, -, -, -, hname⟩ := LeadPipe.readSite_some hread
  obtain ⟨-, hhost, hport⟩ := (h.cleaned ht).readSite_some hread
  intro hmem
  have hparts : ' ' ∈ (Text.partition ':' t).1 ∨ ' ' ∈ (Text.partition ':' t).2.2 := by
    rcases Text.partition_cases ':' t with ⟨-, hpart⟩ | ⟨before, after, -, heq, hpart⟩
    · rw [hpart]
      exact .inl hmem
    · rw [heq, List.mem_append, List.mem_cons] at hmem
      rw [hpart]
      exact hmem.imp_right fun hafter => hafter.resolve_left (by decide)
  rcases hparts with hbefore | hafter
  · obtain ⟨a, b, hab⟩ := List.append_of_mem hbefore
    rw [hab, huc.blank a ' ' b (space_blank _)] at hhost
    have hchar := hostname_char hname (c := ' ') (by simp [hhost])
    exact absurd hchar (by decide)
  · exact absurd (isPort_digits hport _ hafter) (by decide)

theorem HostText.normalizeValue_site_iff (huc : env.unicode.LowersText) {d t : Text}
    (h : HostText d) (ht : cleanText env (some d) = some t) {site : Site}
    (hread : readSite env t = some site) :
    normalizeValue env .domain d = d ↔ SettledDomain env d := by
  obtain ⟨-, -, -, -, hname⟩ := LeadPipe.readSite_some hread
  obtain ⟨-, hhost, hport⟩ := (h.cleaned ht).readSite_some hread
  rw [h.normalizeValue_site ht hread]
  constructor
  · intro hsame
    have hchars : ∀ c ∈ d, isSiteChar c = true := by
      intro c hc
      rw [← hsame] at hc
      exact isHostname_chars hname c (mem_siteHost (mem_siteHost hc))
    have hplain : ∀ c ∈ d, isAuthorityChar c = true :=
      fun c hc => (Bool.and_eq_true_iff.mp (siteChar_plain (hchars c hc))).1
    have hne : d ≠ [] := by
      rw [← hsame]
      exact siteHost_siteHost_ne_nil hname
    have hclean := Cleaned.of_word (authorityText_space hplain env.unicode) hne
    obtain rfl : d = t := Option.some.inj (hclean.cleanText.symm.trans ht)
    have hcolon : ':' ∉ d := fun hc => absurd (hchars _ hc) (by decide)
    rw [Text.partition_none hcolon, siteText_lower hchars] at hhost
    rw [hhost, bareHost_of_chars hchars, siteHost_eq_self] at hsame
    refine ⟨siteText_lower hchars _, hclean.bounded.strip, ?_⟩
    rintro ⟨-, -, hwww | hmem⟩
    · rw [hsame] at hwww
      cases hwww
    · exact hcolon hmem
  · rintro ⟨hlower, hstrip, hno⟩
    have hspace := no_space_of_cleaned (Text.strip_eq_self.mp hstrip) ht (h.no_blank huc ht hread)
    have hne : d ≠ [] := by
      rintro rfl
      cases ht
    obtain rfl : d = t := Option.some.inj ((Cleaned.of_word hspace hne).cleanText.symm.trans ht)
    have hpart : env.unicode.lower (Text.partition ':' d).1 = (Text.partition ':' d).1 :=
      huc.part d _ (Text.partition_within ':' d) hlower
    rw [hpart] at hhost
    rw [hhost] at hname
    have hsettled : ¬(Text.startsWith wwwPrefix d = true ∨ ':' ∈ d) :=
      fun hmore => hno ⟨hname, hport, hmore⟩
    obtain ⟨hwww, hcolon⟩ := not_or.mp hsettled
    have hchars := h.hostChars hname
    rw [Text.partition_none hcolon] at hhost hchars
    rw [hhost, bareHost_of_chars hchars, siteHost_eq_self]
    simpa using hwww

theorem HostText.normalizeValue_plain_iff (huc : env.unicode.LowersText) {d : Text}
    (h : HostText d) (hplain : ∀ t, cleanText env (some d) = some t → readSite env t = none) :
    normalizeValue env .domain d = d ↔ SettledDomain env d := by
  rw [h.normalizeValue_plain hplain]
  constructor
  · intro hsame
    have hlower : env.unicode.lower d = d := by
      conv_lhs => rw [← hsame]
      rw [huc.idem, hsame]
    have hstrip : strip env d = d := by
      have hpart : env.unicode.lower (strip env d) = strip env d :=
        huc.part d _ (Text.strip_within _ _) hlower
      rw [← hpart, hsame]
    refine ⟨hlower, hstrip, ?_⟩
    rintro ⟨hname, hport, -⟩
    obtain ⟨site, hread⟩ := h.readSite_host hlower hname hport
    have hspace := authorityText_space (h.authorityChars hname hport) env.unicode
    have hne : d ≠ [] := by
      rintro rfl
      exact absurd hname (by decide)
    rw [hplain d (Cleaned.of_word hspace hne).cleanText] at hread
    cases hread
  · rintro ⟨hlower, hstrip, -⟩
    rw [hstrip, hlower]

theorem normalizeValue_domain_iff (huc : env.unicode.LowersText) {d : Text} (h : HostText d) :
    normalizeValue env .domain d = d ↔ SettledDomain env d := by
  by_cases hsite : ∃ t site, cleanText env (some d) = some t ∧ readSite env t = some site
  · obtain ⟨t, site, ht, hread⟩ := hsite
    exact h.normalizeValue_site_iff huc ht hread
  · apply h.normalizeValue_plain_iff huc
    intro t ht
    by_contra hread
    obtain ⟨site, hread⟩ := Option.ne_none_iff_exists'.mp hread
    exact hsite ⟨t, site, ht, hread⟩

variable (env)

/-- The list loaded after a lead's contacts were suppressed blocks the lead, and they are
suppressed as they are stored. -/
def SuppressesItself (st : Store) (lead : NormalizedLead) (reason : Text) : Prop :=
  (lead.email ≠ none ∨ lead.websiteDomain ≠ none →
    ((SuppressionRepository.list (SuppressionRepository.addForLead env st lead.email
      lead.websiteDomain reason)).blocks lead.toLeadPayload).isSome = true) ∧
    (∀ e, lead.email = some e → normalizeValue env .email e = e) ∧
      ∀ d, lead.websiteDomain = some d → normalizeValue env .domain d = d

variable {env}

theorem hit_added {st : Store} (hempty : ∀ s, s ∉ st.suppressions) {kind : SuppressionKind}
    {email domain value : Option Text} {reason : Text} :
    SuppressionList.hit value (SuppressionRepository.values
      (SuppressionRepository.addForLead env st email domain reason) kind) = true ↔
      ∃ v, value = some v ∧ v ≠ [] ∧
        ((kind = .email ∧ ∃ w, email = some w ∧ w ≠ [] ∧ v = normalizeValue env .email w) ∨
          (kind = .domain ∧ ∃ w, domain = some w ∧ w ≠ [] ∧
            v = normalizeValue env .domain w)) := by
  have hnone (v : Text) : v ∉ SuppressionRepository.values st kind := by
    rw [SuppressionRepository.mem_values]
    rintro ⟨s, hs, -, -⟩
    exact hempty s hs
  simp [SuppressionList.hit_eq_true, SuppressionRepository.mem_values_addForLead, hnone]

/-- Suppressing the contacts of a normalised record blocks it exactly if there is nothing more to
normalise about them, and the only one is not a domain of no characters. -/
theorem stored_contacts_block_iff (huc : env.unicode.LowersText) {st : Store}
    (hempty : ∀ s, s ∉ st.suppressions) (record : RawRecord) (region : Option Text)
    (reason : Text) :
    SuppressesItself env st (normalizeRecord env record region) reason ↔
      (∀ e, (normalizeRecord env record region).email = some e → SettledEmail env e) ∧
        (∀ d, (normalizeRecord env record region).websiteDomain = some d →
          SettledDomain env d) ∧
          ((normalizeRecord env record region).websiteDomain = some [] →
            (normalizeRecord env record region).email ≠ none) := by
  have hemail : ∀ e, (normalizeRecord env record region).email = some e →
      e ≠ [] ∧ (normalizeValue env .email e = e ↔ SettledEmail env e) :=
    fun e he => ⟨(normalizeEmail_some huc he).1.nonempty, normalizeValue_email_iff huc he⟩
  have hdomain : ∀ d, (normalizeRecord env record region).websiteDomain = some d →
      (normalizeValue env .domain d = d ↔ SettledDomain env d) :=
    fun d hd => normalizeValue_domain_iff huc (extractDomain_host huc hd)
  generalize normalizeRecord env record region = lead at hemail hdomain ⊢
  unfold SuppressesItself
  rw [SuppressionList.blocks_isSome]
  constructor
  · rintro ⟨hblocks, hmails, hsites⟩
    refine ⟨fun e he => (hemail e he).2.mp (hmails e he),
      fun d hd => (hdomain d hd).mp (hsites d hd), fun hd he => ?_⟩
    rcases hblocks (.inr (by simp [hd])) with hhit | hhit
    · obtain ⟨v, hv, -⟩ := SuppressionList.hit_eq_true.mp hhit
      rw [he] at hv
      cases hv
    · obtain ⟨v, hv, hne, -⟩ := SuppressionList.hit_eq_true.mp hhit
      rw [hd] at hv
      exact hne (Option.some.inj hv).symm
  · rintro ⟨hmails, hsites, hnamed⟩
    refine ⟨fun hpresent => ?_, fun e he => (hemail e he).2.mpr (hmails e he),
      fun d hd => (hdomain d hd).mpr (hsites d hd)⟩
    cases he : lead.email with
    | some e =>
        left
        obtain ⟨hne, hvalue⟩ := hemail e he
        apply (hit_added hempty).mpr
        exact ⟨e, rfl, hne, .inl ⟨rfl, e, rfl, hne, (hvalue.mpr (hmails e he)).symm⟩⟩
    | none =>
        right
        obtain ⟨d, hd⟩ := Option.ne_none_iff_exists'.mp (hpresent.resolve_left (· he))
        have hne : d ≠ [] := by
          rintro rfl
          exact hnamed hd he
        rw [hd]
        apply (hit_added hempty).mpr
        exact ⟨d, rfl, hne,
          .inr ⟨rfl, d, rfl, hne, ((hdomain d hd).mpr (hsites d hd)).symm⟩⟩

private def contactRecord (email website : String) : RawRecord :=
  ⟨⟨"crm".toList, none⟩,
    [("email".toList, some email.toList), ("website".toList, some website.toList)], 5⟩

theorem stored_contacts_block_iff_plain :
    SuppressesItself Platform.ascii Store.empty
        (normalizeRecord Platform.ascii (contactRecord "<Info@Acme.fi>" "www.acme.fi/") none)
        "gone".toList ↔
      (∀ e, (normalizeRecord Platform.ascii
          (contactRecord "<Info@Acme.fi>" "www.acme.fi/") none).email = some e →
        SettledEmail Platform.ascii e) ∧
        (∀ d, (normalizeRecord Platform.ascii
            (contactRecord "<Info@Acme.fi>" "www.acme.fi/") none).websiteDomain = some d →
          SettledDomain Platform.ascii d) ∧
          ((normalizeRecord Platform.ascii
              (contactRecord "<Info@Acme.fi>" "www.acme.fi/") none).websiteDomain = some [] →
            (normalizeRecord Platform.ascii
              (contactRecord "<Info@Acme.fi>" "www.acme.fi/") none).email ≠ none) :=
  stored_contacts_block_iff Unicode.ascii_lowersText (by decide) _ none "gone".toList

/-- The first reading leaves a `mailto:` in capitals where it is and lowers it, so that the second
takes it off. -/
theorem stored_contact_is_not_blocked :
    let lead := normalizeRecord Platform.ascii (contactRecord "MAILTO:info@acme.fi" "") none
    lead.email = some "mailto:info@acme.fi".toList ∧
      normalizeValue Platform.ascii .email "mailto:info@acme.fi".toList =
        "info@acme.fi".toList ∧
      (SuppressionRepository.list (SuppressionRepository.addForLead Platform.ascii Store.empty
        lead.email lead.websiteDomain "gone".toList)).blocks lead.toLeadPayload = none := by
  decide +kernel

end LeadPipe
