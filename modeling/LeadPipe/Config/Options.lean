import Mathlib.Algebra.Order.Field.Rat
import LeadPipe.Config.Interpolation

/-!
# Interpolated options

YAML gives a scalar its type before the interpolation, and a reference is a string then, so an
interpolated option stays a string.
-/

namespace LeadPipe.Config

variable {environ : Text → Option Text} {N : Type}

section Same

variable [Zero N] [One N] [Div N] [LT N] [DecidableLT N] [DecidableEq N]

structure SamePolicy (p q : FetchPolicy N) : Prop where
  minInterval : p.minInterval = q.minInterval
  above : ∀ field, field.kind = .numeric → ∀ x, p.above field x = q.above field x
  below : ∀ field, field.kind = .numeric → ∀ x, p.below field x = q.below field x
  holds : ∀ field, field.kind = .boolean → p.holds field = q.holds field
  contact : p.value .contact = q.value .contact

/-- Both fail to load, or their sources have the same policies. -/
def Alike : Except Text (List (FetchPolicy N)) → Except Text (List (FetchPolicy N)) → Prop
  | .ok ps, .ok qs => List.Forall₂ SamePolicy ps qs
  | .error _, .error _ => True
  | _, _ => False

variable {x y : Except Text (List (FetchPolicy N))}

theorem alike_of_none (hx : x.toOption = none) (hy : y.toOption = none) : Alike x y := by
  cases x with
  | error e =>
      cases y with
      | error e' => trivial
      | ok qs => cases hy
  | ok ps => cases hx

theorem alike_of_some {ps qs : List (FetchPolicy N)} (hx : x.toOption = some ps)
    (hy : y.toOption = some qs) : Alike x y ↔ List.Forall₂ SamePolicy ps qs := by
  cases x with
  | error e => cases hx
  | ok ps =>
      cases hx
      cases y with
      | error e => cases hy
      | ok qs =>
          cases hy
          rfl

theorem Alike.holds (h : Alike x y) {field : PolicyField} (hkind : field.kind = .boolean) :
    x.toOption.map (List.map fun policy => policy.holds field) =
      y.toOption.map (List.map fun policy => policy.holds field) := by
  cases x with
  | error e =>
      cases y with
      | error e' => rfl
      | ok qs => exact h.elim
  | ok ps =>
      cases y with
      | error e => exact h.elim
      | ok qs =>
          change List.Forall₂ SamePolicy ps qs at h
          apply congrArg some
          induction h with
          | nil => rfl
          | cons hhead _ ih => exact congrArg₂ List.cons (hhead.holds field hkind) ih

end Same

/-- A numeral that YAML itself leaves a string, or a check that is true. -/
def WrittenOption.Harmless (scalar : Text → Yaml N) (o : WrittenOption environ) : Prop :=
  match o.field.kind with
  | .numeric => scalar o.text = .str o.text
  | .boolean => o.text = "true".toList
  | .text => True

theorem mem_options {entries : List (Entry environ N)} {o : WrittenOption environ} :
    o ∈ entries.filterMap Entry.option? ↔ Entry.option o ∈ entries := by
  rw [List.mem_filterMap]
  constructor
  · intro ⟨entry, hentry, ho⟩
    cases entry with
    | value key item => cases ho
    | option o' =>
        cases ho
        exact hentry
  · intro ho
    exact ⟨.option o, ho, rfl⟩

variable {scalar : Text → Yaml N}

theorem WrittenOption.harmless_numeric {o : WrittenOption environ}
    (hkind : o.field.kind = .numeric) :
    o.Harmless scalar ↔ scalar o.text = .str o.text := by
  rw [WrittenOption.Harmless, hkind]

theorem WrittenOption.harmless_boolean {o : WrittenOption environ}
    (hkind : o.field.kind = .boolean) :
    o.Harmless scalar ↔ o.text = "true".toList := by
  rw [WrittenOption.Harmless, hkind]

variable [NatCast N] [OfScientific N] {source : Declared × List (Entry environ N)}

def policyOf (read : WrittenOption environ → Yaml N) (source : Declared × List (Entry environ N)) :
    FetchPolicy N :=
  .fromOptions (assemble read source).options

theorem written_value (read : WrittenOption environ → Yaml N)
    (hkeys : (source.2.map Entry.key).Nodup) {o : WrittenOption environ}
    (ho : Entry.option o ∈ source.2) :
    (policyOf read source).value o.field = read o := by
  have hkeyed : Dict.Keyed (source.2.map (Entry.write read)) := by
    have hfst : (source.2.map (Entry.write read)).map Prod.fst = source.2.map Entry.key := by
      rw [List.map_map]
      exact List.map_congr_left fun entry _ => by cases entry <;> rfl
    rw [Dict.Keyed, hfst]
    exact hkeys
  have hextra : (!declaredFields.contains o.field.name) = true := by
    simpa using o.field.name_not_declared
  have hget : Dict.get (source.2.map (Entry.write read)) o.field.name = some (read o) :=
    Dict.get_of_mem hkeyed (List.mem_map_of_mem (f := Entry.write read) ho)
  rw [policyOf, FetchPolicy.fromOptions_value, assemble,
    Dict.get_filter (fun key => !declaredFields.contains key) hextra, hget]
  rfl

theorem unwritten_value (read read' : WrittenOption environ → Yaml N) {field : PolicyField}
    (h : ∀ o, Entry.option o ∈ source.2 → o.field ≠ field) :
    (policyOf read source).value field = (policyOf read' source).value field := by
  have hextra : (!declaredFields.contains field.name) = true := by
    simpa using field.name_not_declared
  have hget (entries : List (Entry environ N))
      (h : ∀ o, Entry.option o ∈ entries → o.field ≠ field) :
      Dict.get (entries.map (Entry.write read)) field.name =
        Dict.get (entries.map (Entry.write read')) field.name := by
    induction entries with
    | nil => rfl
    | cons entry entries ih =>
        have hrest := ih fun o ho => h o (List.mem_cons_of_mem entry ho)
        rw [List.map_cons, List.map_cons, Dict.get_cons, Dict.get_cons, hrest]
        cases entry with
        | value key item => rfl
        | option o =>
            have hne : o.field.name ≠ field.name := fun heq =>
              h o List.mem_cons_self (PolicyField.name_injective heq)
            simp [Entry.write, hne]
  rw [policyOf, policyOf, FetchPolicy.fromOptions_value, FetchPolicy.fromOptions_value, assemble,
    assemble,
    Dict.get_filter (fun key => !declaredFields.contains key) hextra,
    Dict.get_filter (fun key => !declaredFields.contains key) hextra, hget source.2 h]

section Loading

variable [Zero N] [DecidableEq N] (env : Platform) (aps : Apscheduler) (pydantic : Pydantic N)
  (file : Text) {as read : WrittenOption environ → Yaml N}

def policies (environ : Text → Option Text) (document : Yaml N) :
    Except Text (List (FetchPolicy N)) :=
  (List.map fun source => FetchPolicy.fromOptions source.options) <$> AppConfig.sources <$>
    loadConfig environ env aps pydantic file document

theorem policies_unfilled (hread : ReadAs as read) {sheet : Sheet environ N} {e : Text}
    (hfill : sheet.fill = .error e) :
    policies env aps pydantic file environ (sheet.document as) = .error e := by
  rw [policies, load_error env aps pydantic file hread hfill]
  rfl

theorem policies_filled (hread : ReadAs as read) {sheet filled : Sheet environ N}
    (hkeyed : filled.Keyed) (hfill : sheet.fill = .ok filled) :
    (policies env aps pydantic file environ (sheet.document as)).toOption =
      List.map (policyOf read) <$> filled.checked env aps pydantic := by
  have hload := load_document env aps pydantic file hread hkeyed hfill
  rw [policies]
  cases hsources : AppConfig.sources <$>
      loadConfig environ env aps pydantic file (sheet.document as) with
  | error e =>
      rw [hsources] at hload
      cases hchecked : filled.checked env aps pydantic with
      | none => rfl
      | some sources =>
          rw [hchecked] at hload
          cases hload
  | ok configs =>
      rw [hsources] at hload
      cases hchecked : filled.checked env aps pydantic with
      | none =>
          rw [hchecked] at hload
          cases hload
      | some sources =>
          rw [hchecked] at hload
          obtain rfl : configs = sources.map (assemble read) := Option.some.inj hload
          change some ((sources.map (assemble read)).map _) = some (sources.map _)
          rw [List.map_map]
          rfl

end Loading

section Comparing

variable [Zero N] [One N] [Div N] [LT N] [DecidableLT N] [DecidableEq N]

theorem harmless_of_same (h : ReadsScalars scalar) (hkeys : (source.2.map Entry.key).Nodup)
    (hsame : SamePolicy (policyOf (fun o => .str o.text) source)
      (policyOf (fun o => scalar o.text) source))
    {o : WrittenOption environ} (ho : Entry.option o ∈ source.2) : o.Harmless scalar := by
  rcases o.fits_cases with ⟨hkind, hdecimal⟩ | ⟨hkind, htrue | hfalse⟩
  · rw [WrittenOption.harmless_numeric hkind]
    rcases h.decimal o.text hdecimal with ⟨n, hnumber⟩ | hstr
    · have habove := hsame.above o.field hkind 0
      rw [FetchPolicy.above, FetchPolicy.above, written_value _ hkeys ho, written_value _ hkeys ho,
        hnumber] at habove
      cases habove
    · exact hstr
  · exact (WrittenOption.harmless_boolean hkind).mpr htrue
  · have hholds := hsame.holds o.field hkind
    rw [FetchPolicy.holds, FetchPolicy.holds, written_value _ hkeys ho, written_value _ hkeys ho,
      hfalse, h.no] at hholds
    cases hholds

theorem same_of_harmless (h : ReadsScalars scalar) (hkeys : (source.2.map Entry.key).Nodup)
    (hall : ∀ o, Entry.option o ∈ source.2 → o.Harmless scalar) :
    SamePolicy (policyOf (fun o => .str o.text) source)
      (policyOf (fun o => scalar o.text) source) := by
  have hnumeric : ∀ field : PolicyField, field.kind = .numeric →
      (policyOf (fun o => .str o.text) source).value field =
        (policyOf (fun o => scalar o.text) source).value field := by
    intro field hkind
    by_cases hwritten : ∃ o, Entry.option o ∈ source.2 ∧ o.field = field
    · obtain ⟨o, ho, rfl⟩ := hwritten
      rw [written_value _ hkeys ho, written_value _ hkeys ho]
      exact ((WrittenOption.harmless_numeric hkind).mp (hall o ho)).symm
    · exact unwritten_value _ _ fun o ho heq => hwritten ⟨o, ho, heq⟩
  constructor
  · rw [FetchPolicy.minInterval, FetchPolicy.minInterval, hnumeric .requestsPerSecond rfl]
  · intro field hkind x
    rw [FetchPolicy.above, FetchPolicy.above, hnumeric field hkind]
  · intro field hkind x
    rw [FetchPolicy.below, FetchPolicy.below, hnumeric field hkind]
  · intro field hkind
    by_cases hwritten : ∃ o, Entry.option o ∈ source.2 ∧ o.field = field
    · obtain ⟨o, ho, rfl⟩ := hwritten
      have htrue := (WrittenOption.harmless_boolean hkind).mp (hall o ho)
      rw [FetchPolicy.holds, FetchPolicy.holds, written_value _ hkeys ho,
        written_value _ hkeys ho, htrue, h.yes]
      rfl
    · rw [FetchPolicy.holds, FetchPolicy.holds,
        unwritten_value _ _ fun o ho heq => hwritten ⟨o, ho, heq⟩]
  · refine unwritten_value _ _ fun o _ heq => ?_
    rcases o.fits_cases with ⟨hkind, -⟩ | ⟨hkind, -⟩
    · rw [heq] at hkind
      cases hkind
    · rw [heq] at hkind
      cases hkind

variable (env : Platform) (aps : Apscheduler) (pydantic : Pydantic N) (file : Text)

/-- Interpolated options are like the literal ones exactly if the rest of the configuration does
not load, or each of them is a check that is made or a numeral that YAML keeps as a string. -/
theorem interpolated_like_literal_iff (h : ReadsScalars scalar) (sheet : Sheet environ N)
    (hkeyed : sheet.Keyed) :
    Alike (policies env aps pydantic file environ
          (sheet.document fun o => .str o.reference.write))
        (policies env aps pydantic file environ (sheet.document fun o => scalar o.text)) ↔
      (¬∃ config, loadConfig environ env aps pydantic file sheet.rest = .ok config) ∨
        ∀ o ∈ sheet.options, o.Harmless scalar := by
  rw [rest_loads_iff env aps pydantic file hkeyed]
  cases hfill : sheet.fill with
  | error e =>
      rw [policies_unfilled env aps pydantic file reference_read hfill,
        policies_unfilled env aps pydantic file (scalar_read h) hfill]
      exact iff_of_true trivial (.inl fun ⟨filled, sources, hfilled, _⟩ => by cases hfilled)
  | ok filled =>
      obtain ⟨hkeyed, hoptions⟩ := fill_keyed hkeyed hfill
      have hreference := policies_filled env aps pydantic file reference_read hkeyed hfill
      have hscalar := policies_filled env aps pydantic file (scalar_read h) hkeyed hfill
      rw [← hoptions]
      cases hchecked : filled.checked env aps pydantic with
      | none =>
          rw [hchecked] at hreference hscalar
          refine iff_of_true (alike_of_none hreference hscalar) (.inl ?_)
          intro ⟨filled', sources, hfilled, hsources⟩
          cases hfilled
          rw [hchecked] at hsources
          cases hsources
      | some sources =>
          rw [hchecked] at hreference hscalar
          have hloads : ∃ filled' sources, Except.ok filled = Except.ok (ε := Text) filled' ∧
              filled'.checked env aps pydantic = some sources := ⟨filled, sources, rfl, hchecked⟩
          have hsecond := checked_sources env aps pydantic hchecked
          have hkeys : ∀ source ∈ sources, (source.2.map Entry.key).Nodup := fun source hsource =>
            hkeyed.sources source.2 (hsecond ▸ List.mem_map_of_mem hsource)
          rw [alike_of_some hreference hscalar, List.forall₂_map_left_iff,
            List.forall₂_map_right_iff, List.forall₂_same, Sheet.options, ← hsecond]
          constructor
          · intro hsame
            refine .inr fun o ho => ?_
            obtain ⟨entries, hentries, ho⟩ := List.mem_flatMap.mp ho
            obtain ⟨source, hsource, rfl⟩ := List.mem_map.mp hentries
            exact harmless_of_same h (hkeys source hsource) (hsame source hsource)
              (mem_options.mp ho)
          · intro hcondition source hsource
            have hall := hcondition.resolve_left (not_not_intro hloads)
            refine same_of_harmless h (hkeys source hsource) fun o ho => hall o ?_
            exact List.mem_flatMap.mpr ⟨source.2, List.mem_map_of_mem hsource, mem_options.mpr ho⟩

end Comparing

private def decimalValue (text : Text) : ℚ :=
  let (whole, _, fraction) := Text.partition '.' (unsigned text)
  let magnitude : ℚ := Text.toNat (whole ++ fraction) / 10 ^ fraction.length
  if text.head? = some '-' then -magnitude else magnitude

private def plainScalar (text : Text) : Yaml ℚ :=
  if text = "true".toList then .bool true
  else if text = "false".toList then .bool false
  else if isDecimal text && !(text.head? == some '0' && 1 < text.length && !text.contains '.') then
    .number (decimalValue text)
  else .str text

private theorem plainScalar_reads : ReadsScalars plainScalar where
  yes := if_pos rfl
  no := by
    have hne : "false".toList ≠ "true".toList := by decide
    rw [plainScalar, if_neg hne, if_pos rfl]
  decimal text h := by
    have htrue : text ≠ "true".toList := by
      rintro rfl
      exact absurd h (by decide)
    have hfalse : text ≠ "false".toList := by
      rintro rfl
      exact absurd h (by decide)
    rw [plainScalar, if_neg htrue, if_neg hfalse]
    split
    · exact .inl ⟨_, rfl⟩
    · exact .inr rfl

private def namesAndTypes : Pydantic ℚ where
  source known :=
    match Dict.get known "name".toList, Dict.get known "type".toList with
    | some (.str name), some (.str type) => some ⟨name, type, true, 0, none, [], none⟩
    | _, _ => none
  defaults _ := some none
  report _ := "validation errors".toList

private def noTriggers : Apscheduler where
  Trigger := Empty
  cronTrigger _ _ _ _ _ _ := .error []
  weekdays trigger := nomatch trigger

private def directoryTimeout (name : Text) : Option Text :=
  if name = "DIRECTORY_TIMEOUT".toList then some "30".toList else none

private def timeout : WrittenOption directoryTimeout where
  field := .timeout
  reference := ⟨'D', "IRECTORY_TIMEOUT".toList, some "10".toList, by decide,
    List.all_eq_true.mp (by decide), fun _ h => Option.some.inj h ▸ by decide⟩
  text := "30".toList
  resolves := by decide
  fits := by decide

private def noPrivateHosts : WrittenOption directoryTimeout where
  field := .allowPrivateHosts
  reference := ⟨'P', "RIVATE".toList, some "false".toList, by decide,
    List.all_eq_true.mp (by decide), fun _ h => Option.some.inj h ▸ by decide⟩
  text := "false".toList
  resolves := by decide
  fits := by decide

private def directory (options : List (WrittenOption directoryTimeout)) :
    Sheet directoryTimeout ℚ where
  before := []
  sources := [.value "name".toList (.str "directory".toList) ::
    .value "type".toList (.str "api".toList) :: options.map .option]
  after := []

theorem interpolated_like_literal_iff_directory :
    Alike (policies .ascii noTriggers namesAndTypes [] directoryTimeout
          ((directory [timeout, noPrivateHosts]).document fun o => .str o.reference.write))
        (policies .ascii noTriggers namesAndTypes [] directoryTimeout
          ((directory [timeout, noPrivateHosts]).document fun o => plainScalar o.text)) ↔
      (¬∃ config, loadConfig directoryTimeout .ascii noTriggers namesAndTypes []
          (directory [timeout, noPrivateHosts]).rest = .ok config) ∨
        ∀ o ∈ (directory [timeout, noPrivateHosts]).options, o.Harmless plainScalar :=
  interpolated_like_literal_iff .ascii noTriggers namesAndTypes [] plainScalar_reads _
    ⟨by decide, by decide, by decide⟩

/-- `allow_private_hosts: ${PRIVATE:-false}` allows private hosts. -/
theorem interpolated_unlike_literal :
    ¬∀ (environ : Text → Option Text) (env : Platform) (aps : Apscheduler) (pydantic : Pydantic ℚ)
      (scalar : Text → Yaml ℚ) (file : Text) (sheet : Sheet environ ℚ),
        ReadsScalars scalar → sheet.Keyed →
          Alike (policies env aps pydantic file environ
              (sheet.document fun o => .str o.reference.write))
            (policies env aps pydantic file environ (sheet.document fun o => scalar o.text)) := by
  intro h
  have halike := h directoryTimeout .ascii noTriggers namesAndTypes plainScalar []
    (directory [noPrivateHosts]) plainScalar_reads ⟨by decide, by decide, by decide⟩
  have hreference : (policies .ascii noTriggers namesAndTypes [] directoryTimeout
      ((directory [noPrivateHosts]).document fun o => .str o.reference.write)).toOption.map
        (List.map fun policy => policy.holds .allowPrivateHosts) = some [true] := by
    decide +kernel
  have hscalar : (policies .ascii noTriggers namesAndTypes [] directoryTimeout
      ((directory [noPrivateHosts]).document fun o => plainScalar o.text)).toOption.map
        (List.map fun policy => policy.holds .allowPrivateHosts) = some [false] := by
    decide +kernel
  generalize policies .ascii noTriggers namesAndTypes [] directoryTimeout
    ((directory [noPrivateHosts]).document fun o => .str o.reference.write) = x
      at halike hreference
  generalize policies .ascii noTriggers namesAndTypes [] directoryTimeout
    ((directory [noPrivateHosts]).document fun o => plainScalar o.text) = y at halike hscalar
  have hsame := halike.holds (show PolicyField.allowPrivateHosts.kind = .boolean from rfl)
  rw [hreference, hscalar] at hsame
  cases hsame

end LeadPipe.Config
