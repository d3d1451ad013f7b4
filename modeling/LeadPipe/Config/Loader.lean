import Mathlib.Data.Char
import Mathlib.Data.List.Dedup
import Mathlib.Data.List.Lex
import LeadPipe.Config.Cron
import LeadPipe.Framework.Traversal

/-!
# Loading a configuration

`app/config/loader.py` and `app/config/models.py`, from what PyYAML has read to the models. What
pydantic does with the declared fields is its own; the other fields of a source are kept as they
are.
-/

namespace LeadPipe

structure ScheduleConfig where
  enabled : Bool
  cron : Text
  timezone : Text

namespace Config

open Framework

/-- What `yaml.safe_load` builds, with a type of numbers. -/
inductive Yaml (N : Type) where
  | null
  | bool (b : Bool)
  | number (n : N)
  | str (text : Text)
  | timestamp (text : Text)
  | list (items : List (Yaml N))
  | dict (entries : List (Text × Yaml N))

/-- The declared fields of `SourceConfig`. -/
structure Declared where
  name : Text
  type : Text
  enabled : Bool
  priority : Int
  region : Option Text
  mapping : Dict Text
  schedule : Option ScheduleConfig

/-- `source` reads the declared fields of a source, `defaults` the field of `Defaults`, and `report`
is the text of the `ValidationError`. -/
structure Pydantic (N : Type) where
  source : Dict (Yaml N) → Option Declared
  defaults : Yaml N → Option (Option Text)
  report : Yaml N → Text

structure SourceConfig (N : Type) extends Declared where
  options : Dict (Yaml N)

structure AppConfig (N : Type) where
  region : Option Text
  sources : List (SourceConfig N)

def isNameStart (c : Char) : Bool := c.isAlpha || c == '_'

def isNameChar (c : Char) : Bool := c.isAlphanum || c == '_'

/-- `_ENV_REF` at the front of a text: its two groups, and its length after the first character. -/
def envRef : Text → Option ((Text × Option Text) × Nat)
  | '$' :: '{' :: first :: text =>
      let name := first :: text.takeWhile isNameChar
      if isNameStart first then
        match text.dropWhile isNameChar with
        | '}' :: _ => some ((name, none), name.length + 2)
        | ':' :: '-' :: text =>
            let default := text.takeWhile (· != '}')
            if text.contains '}' then some ((name, some default), name.length + default.length + 4)
            else none
        | _ => none
      else none
  | _ => none

variable (environ : Text → Option Text) {N : Type}

/-- `_replace` -/
def replace : Text × Option Text → Except Text Text
  | (name, default) =>
      match (environ name).or default with
      | some resolved => .ok resolved
      | none => .error ("environment variable ".toList ++ name ++ " is not set".toList)

mutual

def interpolate : Yaml N → Except Text (Yaml N)
  | .str text => .str <$> substitute envRef (replace environ) text
  | .dict entries => .dict <$> interpolateEntries entries
  | .list items => .list <$> interpolateItems items
  | value => .ok value

def interpolateEntries : List (Text × Yaml N) → Except Text (List (Text × Yaml N))
  | [] => .ok []
  | (key, item) :: rest => do
      let item ← interpolate item
      let rest ← interpolateEntries rest
      return (key, item) :: rest

def interpolateItems : List (Yaml N) → Except Text (List (Yaml N))
  | [] => .ok []
  | item :: rest => do
      let item ← interpolate item
      let rest ← interpolateItems rest
      return item :: rest

end

def declaredFields : List Text :=
  ["name", "type", "enabled", "priority", "region", "mapping", "schedule"].map String.toList

variable (env : Platform) (aps : Apscheduler) (pydantic : Pydantic N)

/-- With the validator of the schedule's expression. -/
def SourceConfig.declared (known : Dict (Yaml N)) : Option Declared := do
  let declared ← pydantic.source known
  match declared.schedule with
  | some schedule =>
      match ScheduleConfig.cronMustParse env aps schedule.cron with
      | .ok _ => some declared
      | .error _ => none
  | none => some declared

def SourceConfig.modelValidate : Yaml N → Option (SourceConfig N)
  | .dict entries =>
      let known := entries.filter fun entry => declaredFields.contains entry.1
      let extra := entries.filter fun entry => !declaredFields.contains entry.1
      (declared env aps pydantic known).map fun declared => { declared with options := extra }
  | _ => none

def namesMustBeUnique (sources : List (SourceConfig N)) : Except Text (List (SourceConfig N)) :=
  let names := sources.map fun source => source.name
  let duplicates := (names.filter fun name => 1 < names.count name).dedup
  if duplicates.isEmpty then .ok sources
  else .error ("duplicate source names: ".toList ++
    Text.join ", ".toList (duplicates.mergeSort fun a b => decide (a ≤ b)))

namespace AppConfig

def readDefaults (entries : Dict (Yaml N)) : Option (Option Text) :=
  match entries.get "defaults".toList with
  | some defaults => pydantic.defaults defaults
  | none => some none

def readSources (entries : Dict (Yaml N)) : Option (List (SourceConfig N)) :=
  match entries.get "sources".toList with
  | some (.list items) => items.mapM (SourceConfig.modelValidate env aps pydantic)
  | some _ => none
  | none => some []

def modelValidate : Yaml N → Option (AppConfig N)
  | .dict entries => do
      let region ← readDefaults pydantic entries
      let sources ← readSources env aps pydantic entries
      (namesMustBeUnique sources).toOption.map fun sources => ⟨region, sources⟩
  | _ => none

end AppConfig

/-- With the `ValidationError` as `load_config` raises it. -/
def validateConfig (file : Text) (data : Yaml N) : Except Text (AppConfig N) :=
  match AppConfig.modelValidate env aps pydantic data with
  | some config => .ok config
  | none => .error ("invalid config in ".toList ++ file ++ ": ".toList ++ pydantic.report data)

section Loading

variable [Zero N] [DecidableEq N]

def Yaml.truthy : Yaml N → Bool
  | .null => false
  | .bool b => b
  | .number n => n ≠ 0
  | .str text => !text.isEmpty
  | .timestamp _ => true
  | .list items => !items.isEmpty
  | .dict entries => !entries.isEmpty

/-- `load_config` for a file that is there and is YAML. -/
def loadConfig (file : Text) (document : Yaml N) : Except Text (AppConfig N) := do
  let data ← interpolate environ (if document.truthy then document else .dict [])
  validateConfig env aps pydantic file data

end Loading

theorem interpolateItems_eq_mapM (items : List (Yaml N)) :
    interpolateItems environ items = items.mapM (interpolate environ) := by
  induction items with
  | nil => rfl
  | cons item rest ih => rw [List.mapM_cons, interpolateItems, ih]

theorem interpolateEntries_eq_mapM (entries : List (Text × Yaml N)) :
    interpolateEntries environ entries =
      entries.mapM fun entry => (Prod.mk entry.1) <$> interpolate environ entry.2 := by
  induction entries with
  | nil => rfl
  | cons entry rest ih =>
      rw [List.mapM_cons, interpolateEntries, ih]
      cases interpolate environ entry.2 with
      | error e => rfl
      | ok item => rfl

theorem interpolateEntries_append (l l' : List (Text × Yaml N)) :
    interpolateEntries environ (l ++ l') = (do
      let first ← interpolateEntries environ l
      let second ← interpolateEntries environ l'
      return first ++ second) := by
  simp only [interpolateEntries_eq_mapM, List.mapM_append]

theorem interpolateEntries_keys {l l' : List (Text × Yaml N)}
    (h : interpolateEntries environ l = .ok l') : l'.map Prod.fst = l.map Prod.fst := by
  rw [interpolateEntries_eq_mapM] at h
  refine mapM_keeps (fun entry entry' hentry => ?_) h
  obtain ⟨item, -, rfl⟩ := map_eq_ok hentry
  rfl

theorem namesMustBeUnique_nodup {sources : List (SourceConfig N)}
    (h : (sources.map fun source => source.name).Nodup) :
    namesMustBeUnique sources = .ok sources := by
  have hnone : (sources.map fun source => source.name).filter
      (fun name => 1 < (sources.map fun source => source.name).count name) = [] := by
    rw [List.filter_eq_nil_iff]
    intro name _
    have hcount := List.nodup_iff_count_le_one.mp h name
    simpa using hcount
  rw [namesMustBeUnique, hnone]
  rfl

theorem namesMustBeUnique_error {sources : List (SourceConfig N)}
    (h : ¬(sources.map fun source => source.name).Nodup) :
    ∃ e, namesMustBeUnique sources = .error e := by
  rw [List.nodup_iff_count_le_one, not_forall] at h
  obtain ⟨name, hcount⟩ := h
  have hmany : 1 < (sources.map fun source => source.name).count name := not_le.mp hcount
  have hmem : name ∈ ((sources.map fun source => source.name).filter fun name =>
      1 < (sources.map fun source => source.name).count name).dedup := by
    rw [List.mem_dedup, List.mem_filter]
    exact ⟨List.count_pos_iff.mp (by omega), by simpa using hmany⟩
  rw [namesMustBeUnique, if_neg (by simpa using List.ne_nil_of_mem hmem)]
  exact ⟨_, rfl⟩

structure Reference where
  first : Char
  rest : Text
  default : Option Text
  starts : isNameStart first = true
  continues : ∀ c ∈ rest, isNameChar c = true
  closes : ∀ text, default = some text → '}' ∉ text

namespace Reference

def name (r : Reference) : Text := r.first :: r.rest

def write (r : Reference) : Text :=
  '$' :: '{' :: (r.name ++ (match r.default with
    | some default => ':' :: '-' :: (default ++ ['}'])
    | none => ['}']))

/-- `none` where loading fails. -/
def resolved (r : Reference) : Option Text := (environ r.name).or r.default

end Reference

theorem name_ends (r : Reference) {c : Char} (hc : isNameChar c = false) (text : Text) :
    (r.rest ++ c :: text).takeWhile isNameChar = r.rest ∧
      (r.rest ++ c :: text).dropWhile isNameChar = c :: text := by
  rw [List.takeWhile_append_of_pos r.continues, List.dropWhile_append_of_pos r.continues,
    List.takeWhile_cons_of_neg (by simp [hc]), List.dropWhile_cons_of_neg (by simp [hc])]
  exact ⟨List.append_nil _, rfl⟩

theorem envRef_write (r : Reference) (text : Text) :
    envRef (r.write ++ text) = some ((r.name, r.default), r.write.length - 1) := by
  cases hdefault : r.default with
  | none =>
      have hwrite : r.write ++ text = '$' :: '{' :: r.first :: (r.rest ++ '}' :: text) := by
        simp [Reference.write, Reference.name, hdefault]
      obtain ⟨htake, hdrop⟩ := name_ends r (show isNameChar '}' = false by decide) text
      rw [hwrite, envRef, htake, if_pos r.starts, hdrop]
      simp [Reference.write, Reference.name, hdefault]
  | some default =>
      have hwrite : r.write ++ text =
          '$' :: '{' :: r.first :: (r.rest ++ ':' :: '-' :: (default ++ '}' :: text)) := by
        simp [Reference.write, Reference.name, hdefault]
      obtain ⟨htake, hdrop⟩ := name_ends r (show isNameChar ':' = false by decide)
        ('-' :: (default ++ '}' :: text))
      have hclosed : ∀ c ∈ default, (c != '}') = true := by
        intro c hc
        simpa using ne_of_mem_of_not_mem hc (r.closes default hdefault)
      have hvalue : (default ++ '}' :: text).takeWhile (· != '}') = default := by
        rw [List.takeWhile_append_of_pos hclosed, List.takeWhile_cons_of_neg (by decide)]
        exact List.append_nil default
      have hends : (default ++ '}' :: text).contains '}' = true := by simp
      rw [hwrite, envRef, htake, if_pos r.starts, hdrop]
      change (if (default ++ '}' :: text).contains '}' = true then
        some ((r.name, some ((default ++ '}' :: text).takeWhile (· != '}'))),
          r.name.length + ((default ++ '}' :: text).takeWhile (· != '}')).length + 4) else none) = _
      rw [if_pos hends, hvalue]
      simp [Reference.write, Reference.name, hdefault]
      omega

theorem envRef_plain {c : Char} (hc : c ≠ '$') (text : Text) : envRef (c :: text) = none := by
  rw [envRef.eq_def]
  split
  · rename_i h
    exact absurd (List.head_eq_of_cons_eq h) hc
  · rfl

/-- A piece of a text: without `$`, or a reference. -/
inductive Piece where
  | plain (text : Text) (noDollar : '$' ∉ text)
  | reference (r : Reference)

namespace Piece

def write : Piece → Text
  | plain text _ => text
  | reference r => r.write

def resolved : Piece → Except Text Text
  | plain text _ => .ok text
  | reference r => replace environ (r.name, r.default)

end Piece

/-- Each reference is replaced, and what it is replaced by is not read again. -/
theorem substitute_pieces (pieces : List Piece) :
    substitute envRef (replace environ) (pieces.flatMap Piece.write) =
      (pieces.mapM (Piece.resolved environ)).map List.flatten := by
  induction pieces with
  | nil => rfl
  | cons piece pieces ih =>
      rw [List.flatMap_cons, List.mapM_cons]
      cases piece with
      | plain text noDollar =>
          have hplain : ∀ c ∈ text, ∀ rest, envRef (c :: rest) = none := fun c hc rest =>
            envRef_plain (ne_of_mem_of_not_mem hc noDollar) rest
          change substitute envRef (replace environ) (text ++ pieces.flatMap Piece.write) = _
          rw [substitute_plain hplain, ih]
          cases pieces.mapM (Piece.resolved environ) with
          | error e => rfl
          | ok texts => rfl
      | reference r =>
          have hread := envRef_write r (pieces.flatMap Piece.write)
          change substitute envRef (replace environ)
            ('$' :: (r.write.tail ++ pieces.flatMap Piece.write)) = _
          rw [substitute_match (by exact hread), ih]
          change _ = (do
            let text ← replace environ (r.name, r.default)
            let texts ← pieces.mapM (Piece.resolved environ)
            return text :: texts).map List.flatten
          cases replace environ (r.name, r.default) with
          | error e => rfl
          | ok text =>
              cases pieces.mapM (Piece.resolved environ) with
              | error e => rfl
              | ok texts => rfl

theorem interpolate_reference (r : Reference) :
    interpolate environ (.str r.write : Yaml N) = .str <$> replace environ (r.name, r.default) := by
  have hpieces := substitute_pieces environ [.reference r]
  have hwrite : [Piece.reference r].flatMap Piece.write = r.write := by simp [Piece.write]
  rw [hwrite] at hpieces
  rw [interpolate, hpieces]
  change (fun text => Yaml.str text) <$> ((do
    let text ← replace environ (r.name, r.default)
    return [text]).map List.flatten) = _
  cases replace environ (r.name, r.default) with
  | error e => rfl
  | ok text => exact congrArg (fun text => Except.ok (Yaml.str text)) (List.append_nil text)

theorem interpolate_plain {text : Text} (h : '$' ∉ text) :
    interpolate environ (.str text : Yaml N) = .ok (.str text) := by
  have hpieces := substitute_pieces environ [.plain text h]
  have hwrite : [Piece.plain text h].flatMap Piece.write = text := by simp [Piece.write]
  rw [hwrite] at hpieces
  rw [interpolate, hpieces]
  exact congrArg (fun text => Except.ok (Yaml.str text)) (List.append_nil text)

section Valid

variable {env aps pydantic}

theorem SourceConfig.declared_schedule {known : Dict (Yaml N)} {declared : Declared}
    (h : SourceConfig.declared env aps pydantic known = some declared) {schedule : ScheduleConfig}
    (hschedule : declared.schedule = some schedule) :
    ∃ trigger, Cron.buildTrigger env aps schedule.cron = .ok trigger := by
  rw [SourceConfig.declared] at h
  obtain ⟨read, -, h⟩ := Option.bind_eq_some_iff.mp h
  cases hgiven : read.schedule with
  | none =>
      rw [hgiven] at h
      rw [← Option.some.inj h, hgiven] at hschedule
      cases hschedule
  | some given =>
      rw [hgiven] at h
      dsimp only at h
      cases hbuilt : Cron.buildTrigger env aps given.cron with
      | error e =>
          rw [ScheduleConfig.cronMustParse, hbuilt] at h
          cases h
      | ok trigger =>
          rw [ScheduleConfig.cronMustParse, hbuilt] at h
          rw [← Option.some.inj h, hgiven] at hschedule
          rw [← Option.some.inj hschedule]
          exact ⟨trigger, hbuilt⟩

theorem SourceConfig.modelValidate_schedule {item : Yaml N} {source : SourceConfig N}
    (h : SourceConfig.modelValidate env aps pydantic item = some source)
    {schedule : ScheduleConfig} (hschedule : source.schedule = some schedule) :
    ∃ trigger, Cron.buildTrigger env aps schedule.cron = .ok trigger := by
  cases item with
  | dict entries =>
      obtain ⟨declared, hdeclared, rfl⟩ := Option.map_eq_some_iff.mp h
      exact declared_schedule hdeclared hschedule
  | _ => cases h

/-- The names of the sources are distinct, and every schedule has a trigger. -/
structure AppConfig.Valid (env : Platform) (aps : Apscheduler) (config : AppConfig N) : Prop where
  names : (config.sources.map fun source => source.name).Nodup
  schedules : ∀ source ∈ config.sources, ∀ schedule, source.schedule = some schedule →
    ∃ trigger, Cron.buildTrigger env aps schedule.cron = .ok trigger

theorem AppConfig.modelValidate_valid {data : Yaml N} {config : AppConfig N}
    (h : AppConfig.modelValidate env aps pydantic data = some config) : config.Valid env aps := by
  cases data with
  | dict entries =>
      rw [AppConfig.modelValidate] at h
      obtain ⟨region, -, h⟩ := Option.bind_eq_some_iff.mp h
      obtain ⟨sources, hsources, h⟩ := Option.bind_eq_some_iff.mp h
      by_cases hnames : (sources.map fun source => source.name).Nodup
      · rw [namesMustBeUnique_nodup hnames] at h
        cases h
        refine ⟨hnames, fun source hsource schedule hschedule => ?_⟩
        rw [readSources] at hsources
        split at hsources
        · obtain ⟨item, -, hitem⟩ := mapM_mem hsources source hsource
          exact SourceConfig.modelValidate_schedule hitem hschedule
        · cases hsources
        · cases hsources
          cases hsource
      · obtain ⟨e, he⟩ := namesMustBeUnique_error hnames
        rw [he] at h
        cases h
  | _ => cases h

theorem loadConfig_valid [Zero N] [DecidableEq N] {file : Text} {document : Yaml N}
    {config : AppConfig N}
    (h : loadConfig environ env aps pydantic file document = .ok config) :
    config.Valid env aps := by
  rw [loadConfig] at h
  obtain ⟨data, -, h⟩ := bind_eq_ok h
  rw [validateConfig] at h
  cases hmodel : AppConfig.modelValidate env aps pydantic data with
  | none =>
      rw [hmodel] at h
      cases h
  | some loaded =>
      rw [hmodel] at h
      cases h
      exact AppConfig.modelValidate_valid hmodel

end Valid

end Config

end LeadPipe
