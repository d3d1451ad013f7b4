import LeadPipe.Config.Policy

/-!
# Interpolation

Some options of a configuration are written as references, or as the scalars the references stand
for. What is loaded is the same but for the values of these options.
-/

namespace LeadPipe.Config

open Framework

def unsigned : Text → Text
  | '-' :: digits => digits
  | '+' :: digits => digits
  | digits => digits

/-- Digits with an optional sign and an optional point. -/
def isDecimal (text : Text) : Bool :=
  (unsigned text).any Char.isDigit && (unsigned text).all (fun c => c.isDigit || c == '.') &&
    (unsigned text).count '.' ≤ 1

/-- How PyYAML reads a plain scalar. A numeral that is none to YAML (`08`) is a string. -/
structure ReadsScalars {N : Type} (scalar : Text → Yaml N) : Prop where
  decimal : ∀ text, isDecimal text = true → (∃ n, scalar text = .number n) ∨ scalar text = .str text
  yes : scalar "true".toList = .bool true
  no : scalar "false".toList = .bool false

def PolicyField.fits (field : PolicyField) (text : Text) : Bool :=
  match field.kind with
  | .numeric => isDecimal text
  | .boolean => text == "true".toList || text == "false".toList
  | .text => false

section Writing

variable (environ : Text → Option Text) (N : Type)

/-- An option that is written as a reference. -/
structure WrittenOption where
  field : PolicyField
  reference : Reference
  text : Text
  resolves : reference.resolved environ = some text
  fits : field.fits text = true

inductive Entry where
  | value (key : Text) (item : Yaml N)
  | option (o : WrittenOption environ)

/-- A configuration whose options are still to be written. -/
structure Sheet where
  before : Dict (Yaml N)
  sources : List (List (Entry environ N))
  after : Dict (Yaml N)

end Writing

variable {environ : Text → Option Text} {N : Type}

namespace Entry

def key : Entry environ N → Text
  | value key _ => key
  | option o => o.field.name

def write (as : WrittenOption environ → Yaml N) : Entry environ N → Text × Yaml N
  | value key item => (key, item)
  | option o => (o.field.name, as o)

def value? : Entry environ N → Option (Text × Yaml N)
  | value key item => some (key, item)
  | option _ => none

def option? : Entry environ N → Option (WrittenOption environ)
  | value _ _ => none
  | option o => some o

end Entry

namespace Sheet

structure Keyed (sheet : Sheet environ N) : Prop where
  before : "sources".toList ∉ sheet.before.map Prod.fst
  after : "sources".toList ∉ sheet.after.map Prod.fst
  sources : ∀ entries ∈ sheet.sources, (entries.map Entry.key).Nodup

def document (sheet : Sheet environ N) (as : WrittenOption environ → Yaml N) : Yaml N :=
  .dict (sheet.before ++ ("sources".toList,
    .list (sheet.sources.map fun entries => .dict (entries.map (Entry.write as)))) :: sheet.after)

/-- The configuration without the options. -/
def rest (sheet : Sheet environ N) : Yaml N :=
  .dict (sheet.before ++ ("sources".toList,
    .list (sheet.sources.map fun entries => .dict (entries.filterMap Entry.value?))) :: sheet.after)

def options (sheet : Sheet environ N) : List (WrittenOption environ) :=
  sheet.sources.flatMap fun entries => entries.filterMap Entry.option?

end Sheet

/-- What a writing of the options is read as. -/
def ReadAs (as read : WrittenOption environ → Yaml N) : Prop :=
  ∀ o, interpolate environ (as o) = .ok (read o)

theorem mem_unsigned {c : Char} (hminus : c ≠ '-') (hplus : c ≠ '+') {text : Text} (h : c ∈ text) :
    c ∈ unsigned text := by
  rw [unsigned.eq_def]
  split
  · exact List.mem_of_ne_of_mem hminus h
  · exact List.mem_of_ne_of_mem hplus h
  · exact h

theorem decimal_plain {text : Text} (h : isDecimal text = true) : '$' ∉ text := by
  intro hmem
  simp only [isDecimal, Bool.and_eq_true] at h
  have hdollar := List.all_eq_true.mp h.1.2 '$' (mem_unsigned (by decide) (by decide) hmem)
  revert hdollar
  decide

theorem WrittenOption.fits_cases (o : WrittenOption environ) :
    (o.field.kind = .numeric ∧ isDecimal o.text = true) ∨
      (o.field.kind = .boolean ∧ (o.text = "true".toList ∨ o.text = "false".toList)) := by
  have hfits := o.fits
  rw [PolicyField.fits] at hfits
  cases hkind : o.field.kind with
  | numeric =>
      rw [hkind] at hfits
      exact .inl ⟨rfl, hfits⟩
  | boolean =>
      rw [hkind] at hfits
      exact .inr ⟨rfl, by simpa using hfits⟩
  | text =>
      rw [hkind] at hfits
      cases hfits

theorem reference_read :
    ReadAs (fun o : WrittenOption environ => (.str o.reference.write : Yaml N))
      fun o => .str o.text := by
  intro o
  change interpolate environ (.str o.reference.write) = .ok (.str o.text)
  have hresolves : (environ o.reference.name).or o.reference.default = some o.text := o.resolves
  rw [interpolate_reference, replace, hresolves]
  rfl

theorem scalar_read {scalar : Text → Yaml N} (h : ReadsScalars scalar) :
    ReadAs (fun o : WrittenOption environ => scalar o.text) fun o => scalar o.text := by
  intro o
  change interpolate environ (scalar o.text) = .ok (scalar o.text)
  rcases o.fits_cases with ⟨-, hdecimal⟩ | ⟨-, htrue | hfalse⟩
  · rcases h.decimal o.text hdecimal with ⟨n, hnumber⟩ | hstr
    · rw [hnumber]
      rfl
    · rw [hstr]
      exact interpolate_plain environ (decimal_plain hdecimal)
  · rw [htrue, h.yes]
    rfl
  · rw [hfalse, h.no]
    rfl

namespace Entry

def fill : Entry environ N → Except Text (Entry environ N)
  | value key item => (value key) <$> interpolate environ item
  | option o => .ok (option o)

def isValue : Entry environ N → Bool
  | value _ _ => true
  | option _ => false

end Entry

variable {as read : WrittenOption environ → Yaml N}

theorem interpolate_entries (hread : ReadAs as read) (entries : List (Entry environ N)) :
    interpolateEntries environ (entries.map (Entry.write as)) =
      List.map (Entry.write read) <$> entries.mapM Entry.fill := by
  rw [interpolateEntries_eq_mapM]
  refine mapM_map_eq (fun entry => ?_) entries
  cases entry with
  | value key item =>
      change Prod.mk key <$> interpolate environ item =
        Entry.write read <$> Entry.value key <$> interpolate environ item
      rw [Functor.map_map]
      rfl
  | option o =>
      change Prod.mk o.field.name <$> interpolate environ (as o) = _
      rw [hread o]
      rfl

theorem fill_entry {entry filled : Entry environ N} (h : entry.fill = .ok filled) :
    filled.key = entry.key ∧ filled.option? = entry.option? ∧ filled.isValue = entry.isValue := by
  cases entry with
  | value key item =>
      obtain ⟨item', -, rfl⟩ := map_eq_ok h
      exact ⟨rfl, rfl, rfl⟩
  | option o =>
      cases h
      exact ⟨rfl, rfl, rfl⟩

theorem fill_entries {entries filled : List (Entry environ N)}
    (h : entries.mapM Entry.fill = .ok filled) :
    filled.map Entry.key = entries.map Entry.key ∧
      filled.filterMap Entry.option? = entries.filterMap Entry.option? := by
  have hoptions : filled.map Entry.option? = entries.map Entry.option? :=
    mapM_keeps (fun _ _ hentry => (fill_entry hentry).2.1) h
  constructor
  · exact mapM_keeps (fun _ _ hentry => (fill_entry hentry).1) h
  · simpa [List.filterMap_map] using congrArg (List.filterMap id) hoptions

theorem fill_values (entries : List (Entry environ N)) :
    (entries.filter Entry.isValue).mapM Entry.fill =
      List.filter Entry.isValue <$> entries.mapM Entry.fill := by
  apply mapM_filter
  · exact fun _ _ hentry => (fill_entry hentry).2.2
  · intro entry hoption
    cases entry with
    | value key item => cases hoption
    | option o => exact ⟨_, rfl⟩

namespace Sheet

def fill (sheet : Sheet environ N) : Except Text (Sheet environ N) := do
  let before ← interpolateEntries environ sheet.before
  let sources ← sheet.sources.mapM (List.mapM Entry.fill)
  let after ← interpolateEntries environ sheet.after
  return ⟨before, sources, after⟩

def without (sheet : Sheet environ N) : Sheet environ N :=
  { sheet with sources := sheet.sources.map (List.filter Entry.isValue) }

theorem rest_eq (sheet : Sheet environ N) (as : WrittenOption environ → Yaml N) :
    sheet.rest = sheet.without.document as := by
  have hentries (entries : List (Entry environ N)) : entries.filterMap Entry.value? =
      (entries.filter Entry.isValue).map (Entry.write as) := by
    induction entries with
    | nil => rfl
    | cons entry entries ih =>
        cases entry with
        | value key item => exact congrArg ((key, item) :: ·) ih
        | option o => exact ih
  simp only [rest, document, without, List.map_map, Function.comp_def, hentries]

end Sheet

theorem interpolate_sources (hread : ReadAs as read) (sources : List (List (Entry environ N))) :
    interpolateItems environ (sources.map fun entries => .dict (entries.map (Entry.write as))) =
      (List.map fun entries => .dict (entries.map (Entry.write read))) <$>
        sources.mapM (List.mapM Entry.fill) := by
  rw [interpolateItems_eq_mapM]
  refine mapM_map_eq (fun entries => ?_) sources
  rw [interpolate, interpolate_entries hread, Functor.map_map]

theorem interpolate_document (hread : ReadAs as read) (sheet : Sheet environ N) :
    interpolate environ (sheet.document as) =
      (fun filled => filled.document read) <$> sheet.fill := by
  rw [Sheet.document, interpolate, interpolateEntries_append, interpolateEntries, interpolate,
    interpolate_sources hread, Sheet.fill]
  cases interpolateEntries environ sheet.before with
  | error e => rfl
  | ok before =>
      cases sheet.sources.mapM (List.mapM Entry.fill) with
      | error e => rfl
      | ok sources =>
          cases interpolateEntries environ sheet.after with
          | error e => rfl
          | ok after => rfl

theorem fill_sources {sources filled : List (List (Entry environ N))}
    (h : sources.mapM (List.mapM Entry.fill) = .ok filled) :
    filled.map (List.map Entry.key) = sources.map (List.map Entry.key) ∧
      filled.map (List.filterMap Entry.option?) = sources.map (List.filterMap Entry.option?) :=
  ⟨mapM_keeps (fun _ _ hentries => (fill_entries hentries).1) h,
    mapM_keeps (fun _ _ hentries => (fill_entries hentries).2) h⟩

theorem fill_without (sheet : Sheet environ N) :
    sheet.without.fill = Sheet.without <$> sheet.fill := by
  have hsources : (sheet.sources.map (List.filter Entry.isValue)).mapM (List.mapM Entry.fill) =
      List.map (List.filter Entry.isValue) <$> sheet.sources.mapM (List.mapM Entry.fill) :=
    mapM_map_eq fill_values sheet.sources
  rw [Sheet.fill, Sheet.fill, Sheet.without, hsources]
  cases interpolateEntries environ sheet.before with
  | error e => rfl
  | ok before =>
      cases sheet.sources.mapM (List.mapM Entry.fill) with
      | error e => rfl
      | ok sources =>
          cases interpolateEntries environ sheet.after with
          | error e => rfl
          | ok after => rfl

theorem fill_keyed {sheet filled : Sheet environ N} (hkeyed : sheet.Keyed)
    (h : sheet.fill = .ok filled) : filled.Keyed ∧ filled.options = sheet.options := by
  rw [Sheet.fill] at h
  obtain ⟨before, hbefore, h⟩ := bind_eq_ok h
  obtain ⟨sources, hsources, h⟩ := bind_eq_ok h
  obtain ⟨after, hafter, h⟩ := bind_eq_ok h
  obtain rfl := Except.ok.inj h
  obtain ⟨hkeys, hoptions⟩ := fill_sources hsources
  constructor
  · constructor
    · rw [interpolateEntries_keys environ hbefore]
      exact hkeyed.before
    · rw [interpolateEntries_keys environ hafter]
      exact hkeyed.after
    · intro entries hentries
      have hmem : entries.map Entry.key ∈ sheet.sources.map (List.map Entry.key) :=
        hkeys ▸ List.mem_map_of_mem hentries
      obtain ⟨entries', hentries', heq⟩ := List.mem_map.mp hmem
      exact heq ▸ hkeyed.sources entries' hentries'
  · simp only [Sheet.options, List.flatMap_def]
    exact congrArg List.flatten hoptions

section Loading

variable (env : Platform) (aps : Apscheduler) (pydantic : Pydantic N)

/-- The declared fields of a source are not among the options. -/
def check (entries : List (Entry environ N)) : Option Declared :=
  SourceConfig.declared env aps pydantic
    ((entries.filterMap Entry.value?).filter fun entry => declaredFields.contains entry.1)

def assemble (read : WrittenOption environ → Yaml N) (source : Declared × List (Entry environ N)) :
    SourceConfig N :=
  { source.1 with
    options := (source.2.map (Entry.write read)).filter fun entry =>
      !declaredFields.contains entry.1 }

def Sheet.validated (sheet : Sheet environ N) :
    Option (List (Declared × List (Entry environ N))) :=
  sheet.sources.mapM fun entries => (check env aps pydantic entries).map fun declared =>
    (declared, entries)

def distinct (sources : List (Declared × List (Entry environ N))) :
    Option (List (Declared × List (Entry environ N))) :=
  if (sources.map fun source => source.1.name).Nodup then some sources else none

def Sheet.checked (sheet : Sheet environ N) :
    Option (List (Declared × List (Entry environ N))) := do
  let _ ← AppConfig.readDefaults pydantic (sheet.before ++ sheet.after)
  let sources ← sheet.validated env aps pydantic
  distinct sources

theorem declared_entries (read : WrittenOption environ → Yaml N)
    (entries : List (Entry environ N)) :
    (entries.map (Entry.write read)).filter (fun entry => declaredFields.contains entry.1) =
      (entries.filterMap Entry.value?).filter fun entry => declaredFields.contains entry.1 := by
  induction entries with
  | nil => rfl
  | cons entry entries ih =>
      rw [List.map_cons, List.filter_cons, ih]
      cases entry with
      | value key item =>
          rw [List.filterMap_cons_some (show (Entry.value key item).value? = _ from rfl),
            List.filter_cons]
          rfl
      | option o =>
          have hextra : ¬declaredFields.contains (Entry.write read (.option o)).1 = true := by
            simpa [Entry.write] using o.field.name_not_declared
          rw [if_neg hextra]
          rfl

theorem modelValidate_source (read : WrittenOption environ → Yaml N)
    (entries : List (Entry environ N)) :
    SourceConfig.modelValidate env aps pydantic (.dict (entries.map (Entry.write read))) =
      (check env aps pydantic entries).map fun declared => assemble read (declared, entries) := by
  rw [SourceConfig.modelValidate, declared_entries]
  rfl

theorem modelValidate_document (read : WrittenOption environ → Yaml N) {sheet : Sheet environ N}
    (hkeyed : sheet.Keyed) :
    AppConfig.sources <$> AppConfig.modelValidate env aps pydantic (sheet.document read) =
      List.map (assemble read) <$> sheet.checked env aps pydantic := by
  have hdefaults (items : Yaml N) :
      AppConfig.readDefaults pydantic
          (sheet.before ++ ("sources".toList, items) :: sheet.after) =
        AppConfig.readDefaults pydantic (sheet.before ++ sheet.after) := by
    rw [AppConfig.readDefaults, AppConfig.readDefaults,
      Dict.get_pass (by decide) sheet.before sheet.after items]
  have hsources : AppConfig.readSources env aps pydantic (sheet.before ++ ("sources".toList,
      .list (sheet.sources.map fun entries => .dict (entries.map (Entry.write read)))) ::
        sheet.after) = List.map (assemble read) <$> sheet.validated env aps pydantic := by
    rw [AppConfig.readSources, Dict.get_found hkeyed.before]
    refine mapM_map_eq (fun entries => ?_) sheet.sources
    rw [modelValidate_source]
    cases check env aps pydantic entries with
    | none => rfl
    | some declared => rfl
  rw [Sheet.document, AppConfig.modelValidate, hdefaults, hsources, Sheet.checked]
  cases AppConfig.readDefaults pydantic (sheet.before ++ sheet.after) with
  | none => rfl
  | some region =>
      cases sheet.validated env aps pydantic with
      | none => rfl
      | some sources =>
          have hnames : ((sources.map (assemble read)).map fun source => source.name) =
              sources.map fun source => source.1.name := by
            rw [List.map_map]
            rfl
          change AppConfig.sources <$>
              ((namesMustBeUnique (sources.map (assemble read))).toOption.map
                fun sources => (⟨region, sources⟩ : AppConfig N)) =
            List.map (assemble read) <$> distinct sources
          by_cases hunique : (sources.map fun source => source.1.name).Nodup
          · rw [namesMustBeUnique_nodup (hnames ▸ hunique), distinct, if_pos hunique]
            rfl
          · obtain ⟨e, he⟩ := namesMustBeUnique_error (hnames ▸ hunique)
            rw [he, distinct, if_neg hunique]
            rfl

theorem checked_without (sheet : Sheet environ N) :
    sheet.without.checked env aps pydantic =
      (List.map fun source => (source.1, source.2.filter Entry.isValue)) <$>
        sheet.checked env aps pydantic := by
  have hvalues (entries : List (Entry environ N)) :
      (entries.filter Entry.isValue).filterMap Entry.value? = entries.filterMap Entry.value? := by
    induction entries with
    | nil => rfl
    | cons entry entries ih =>
        cases entry with
        | value key item => exact congrArg ((key, item) :: ·) ih
        | option o => exact ih
  have hsources : sheet.without.validated env aps pydantic =
      (List.map fun source => (source.1, source.2.filter Entry.isValue)) <$>
        sheet.validated env aps pydantic := by
    refine mapM_map_eq (fun entries => ?_) sheet.sources
    rw [check, hvalues, ← check]
    cases check env aps pydantic entries with
    | none => rfl
    | some declared => rfl
  have hdefaults : AppConfig.readDefaults pydantic (sheet.without.before ++ sheet.without.after) =
      AppConfig.readDefaults pydantic (sheet.before ++ sheet.after) := rfl
  rw [Sheet.checked, Sheet.checked, hsources, hdefaults]
  cases AppConfig.readDefaults pydantic (sheet.before ++ sheet.after) with
  | none => rfl
  | some region =>
      cases sheet.validated env aps pydantic with
      | none => rfl
      | some sources =>
          have hnames : ((sources.map fun source =>
              (source.1, source.2.filter Entry.isValue)).map fun source => source.1.name) =
                sources.map fun source => source.1.name := by
            rw [List.map_map]
            rfl
          change distinct (sources.map fun source => (source.1, source.2.filter Entry.isValue)) =
            _ <$> distinct sources
          rw [distinct, distinct, hnames]
          by_cases hunique : (sources.map fun source => source.1.name).Nodup
          · rw [if_pos hunique, if_pos hunique]
            rfl
          · rw [if_neg hunique, if_neg hunique]
            rfl

theorem Sheet.Keyed.without {sheet : Sheet environ N} (h : sheet.Keyed) : sheet.without.Keyed where
  before := h.before
  after := h.after
  sources := by
    intro entries hentries
    obtain ⟨entries, hmem, rfl⟩ := List.mem_map.mp hentries
    exact (h.sources entries hmem).sublist (List.filter_sublist.map Entry.key)

theorem checked_sources {sheet : Sheet environ N}
    {sources : List (Declared × List (Entry environ N))}
    (h : sheet.checked env aps pydantic = some sources) : sources.map Prod.snd = sheet.sources := by
  rw [Sheet.checked] at h
  obtain ⟨region, -, h⟩ := Option.bind_eq_some_iff.mp h
  obtain ⟨validated, hvalidated, h⟩ := Option.bind_eq_some_iff.mp h
  rw [distinct, Option.ite_none_right_eq_some] at h
  rw [← Option.some.inj h.2]
  refine mapM_reads (fun entries source hsource => ?_) hvalidated
  obtain ⟨declared, -, rfl⟩ := Option.map_eq_some_iff.mp hsource
  rfl

variable [Zero N] [DecidableEq N] (file : Text)

theorem document_truthy (sheet : Sheet environ N) : (sheet.document as).truthy = true := by
  simp [Sheet.document, Yaml.truthy]

theorem load_document (hread : ReadAs as read) {sheet filled : Sheet environ N}
    (hkeyed : filled.Keyed) (hfill : sheet.fill = .ok filled) :
    (AppConfig.sources <$> loadConfig environ env aps pydantic file (sheet.document as)).toOption =
      List.map (assemble read) <$> filled.checked env aps pydantic := by
  rw [← modelValidate_document env aps pydantic read hkeyed, loadConfig, document_truthy,
    if_pos rfl, interpolate_document hread, hfill]
  change (AppConfig.sources <$> validateConfig env aps pydantic file
    (filled.document read)).toOption = _
  rw [validateConfig]
  cases AppConfig.modelValidate env aps pydantic (filled.document read) with
  | none => rfl
  | some config => rfl

theorem load_error (hread : ReadAs as read) {sheet : Sheet environ N} {e : Text}
    (hfill : sheet.fill = .error e) :
    loadConfig environ env aps pydantic file (sheet.document as) = .error e := by
  rw [loadConfig, document_truthy, if_pos rfl, interpolate_document hread, hfill]
  rfl

theorem rest_loads_iff {sheet : Sheet environ N} (hkeyed : sheet.Keyed) :
    (∃ config, loadConfig environ env aps pydantic file sheet.rest = .ok config) ↔
      ∃ filled sources, sheet.fill = .ok filled ∧
        filled.checked env aps pydantic = some sources := by
  have hread : ReadAs (fun _ : WrittenOption environ => (.null : Yaml N)) fun _ => .null :=
    fun _ => rfl
  rw [sheet.rest_eq fun _ => .null]
  cases hfill : sheet.fill with
  | error e =>
      have hwithout : sheet.without.fill = .error e := by
        rw [fill_without, hfill]
        rfl
      rw [load_error env aps pydantic file hread hwithout]
      simp
  | ok filled =>
      have hwithout : sheet.without.fill = .ok filled.without := by
        rw [fill_without, hfill]
        rfl
      have hload := load_document env aps pydantic file hread (fill_keyed hkeyed hfill).1.without
        hwithout
      rw [checked_without] at hload
      cases hchecked : filled.checked env aps pydantic with
      | none =>
          rw [hchecked] at hload
          constructor
          · intro ⟨config, hconfig⟩
            rw [hconfig] at hload
            cases hload
          · intro ⟨filled', sources, hfilled, hsources⟩
            cases hfilled
            rw [hchecked] at hsources
            cases hsources
      | some sources =>
          rw [hchecked] at hload
          refine iff_of_true ?_ ⟨filled, sources, rfl, hchecked⟩
          cases hconfig : loadConfig environ env aps pydantic file
              (sheet.without.document fun _ => .null) with
          | error e =>
              rw [hconfig] at hload
              cases hload
          | ok config => exact ⟨config, rfl⟩

end Loading

end LeadPipe.Config
