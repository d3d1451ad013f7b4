import LeadPipe.Config.Cron
import LeadPipe.Python.Strings
import LeadPipe.Python.UrlLaws

/-!
# Days of the week

POSIX counts the days of the week from Sunday, APScheduler from Monday. The days of a field are
translated by name, so a number is the same day in both; a range from Sunday and the steps of `*/s`
are not.
-/

namespace LeadPipe

open Framework

/-- An item of a day-of-week field; `*/s` is `every s`. -/
inductive PosixItem where
  | any
  | every (step : Nat) (positive : 0 < step)
  | on (n : Fin 8)
  | range (n m : Fin 8) (ordered : n ≤ m)

structure PosixField where
  items : List PosixItem
  nonempty : items ≠ []

namespace PosixItem

def write : PosixItem → Text
  | any => ['*']
  | every step _ => '*' :: '/' :: Text.ofNat step
  | on n => Text.ofNat n.val
  | range n m _ => Text.ofNat n.val ++ '-' :: Text.ofNat m.val

/-- The days an item stands for; 0 and 7 are Sunday. -/
def denotes : PosixItem → Weekday → Bool
  | any, _ => true
  | every step _, d => d.fromSunday % step == 0
  | on n, d => n.val % 7 == d.fromSunday
  | range n m _, d => (List.range 8).any fun k => n ≤ k && k ≤ m && k % 7 == d.fromSunday

end PosixItem

namespace PosixField

def write (field : PosixField) : Text := Text.join [','] (field.items.map PosixItem.write)

def denotes (field : PosixField) (d : Weekday) : Bool := field.items.any fun item => item.denotes d

end PosixField

/-- A field with the days that may be counted from Monday: what `compile` makes of the texts a
translation can have. It may refuse some steps. -/
structure CountsFromMonday (accepts : Nat → Bool) (compile : Text → Except Text (Weekday → Bool)) :
    Prop where
  any : compile ['*'] = .ok fun _ => true
  every : ∀ step, 0 < step → accepts step = true →
    compile ('*' :: '/' :: Text.ofNat step) = .ok fun d => d.fromMonday % step == 0
  refused : ∀ step, 0 < step → accepts step = false →
    ∃ e, compile ('*' :: '/' :: Text.ofNat step) = .error e
  on : ∀ day : Weekday, compile day.name = .ok fun d => d == day
  range : ∀ first last : Weekday, first.fromMonday ≤ last.fromMonday →
    compile (first.name ++ '-' :: last.name) =
      .ok fun d => first.fromMonday ≤ d.fromMonday && d.fromMonday ≤ last.fromMonday
  backwards : ∀ first last : Weekday, last.fromMonday < first.fromMonday →
    ∃ e, compile (first.name ++ '-' :: last.name) = .error e
  both : ∀ item rest left right, ',' ∉ item → compile item = .ok left → compile rest = .ok right →
    compile (item ++ ',' :: rest) = .ok fun d => left d || right d
  either : ∀ item rest, ',' ∉ item →
    ((∃ e, compile item = .error e) ∨ ∃ e, compile rest = .error e) →
      ∃ e, compile (item ++ ',' :: rest) = .error e

/-- The days of a trigger with this day-of-week field. -/
def Apscheduler.dayField (aps : Apscheduler) (minute hour day month timezone field : Text) :
    Except Text (Weekday → Bool) :=
  (aps.cronTrigger minute hour day month field timezone).map aps.weekdays

/-- The day with a number. -/
def weekday : Fin 8 → Weekday
  | 0 => .sun
  | 1 => .mon
  | 2 => .tue
  | 3 => .wed
  | 4 => .thu
  | 5 => .fri
  | 6 => .sat
  | 7 => .sun

namespace PosixItem

def translated : PosixItem → Text
  | any => ['*']
  | every step _ => '*' :: '/' :: Text.ofNat step
  | on n => (weekday n).name
  | range n m _ => (weekday n).name ++ '-' :: (weekday m).name

/-- The days of the translation, counted from Monday. -/
def counted : PosixItem → Weekday → Bool
  | any, _ => true
  | every step _, d => d.fromMonday % step == 0
  | on n, d => d == weekday n
  | range n m _, d => (weekday n).fromMonday ≤ d.fromMonday && d.fromMonday ≤ (weekday m).fromMonday

/-- A range from Sunday that ends on another day. -/
def wraps : PosixItem → Bool
  | range n m _ => n.val == 0 && 0 < m.val && m.val < 7
  | _ => false

/-- Counted from Monday these are other days: `*/s`, and `0-7`, of which Sunday is left. -/
def misread : PosixItem → Bool
  | every step _ => step != 1
  | range n m _ => n.val == 0 && m.val == 7
  | _ => false

def accepted (accepts : Nat → Bool) : PosixItem → Bool
  | every step _ => accepts step
  | item => !item.wraps

theorem counted_eq {item : PosixItem} (hwraps : item.wraps = false) (hread : item.misread = false)
    (d : Weekday) : item.counted d = item.denotes d := by
  cases item with
  | any => rfl
  | every step positive =>
      obtain rfl : step = 1 := by simpa [misread] using hread
      simp [counted, denotes, Nat.mod_one]
  | on n =>
      have hall : ∀ (n : Fin 8) (d : Weekday), (d == weekday n) = (n.val % 7 == d.fromSunday) := by
        decide
      exact hall n d
  | range n m ordered =>
      have hall : ∀ (n m : Fin 8) (d : Weekday), n ≤ m →
          (n.val == 0 && decide (0 < m.val) && decide (m.val < 7)) = false →
            (n.val == 0 && m.val == 7) = false →
              ((decide ((weekday n).fromMonday ≤ d.fromMonday) &&
                  decide (d.fromMonday ≤ (weekday m).fromMonday)) =
                (List.range 8).any fun k => decide (n.val ≤ k) && decide (k ≤ m.val) &&
                  k % 7 == d.fromSunday) := by
        decide +kernel
      exact hall n m d ordered hwraps hread

theorem wraps_iff (n m : Fin 8) (ordered : n ≤ m) :
    (range n m ordered).wraps = true ↔ (weekday m).fromMonday < (weekday n).fromMonday := by
  have hall : ∀ n m : Fin 8, n ≤ m →
      ((n.val == 0 && decide (0 < m.val) && decide (m.val < 7)) = true ↔
        (weekday m).fromMonday < (weekday n).fromMonday) := by
    decide +kernel
  exact hall n m ordered

end PosixItem

section Translation

variable (env : Platform)

theorem day_char {c : Char} (hascii : c.toNat < 128) (hspace : Text.asciiSpace c = false)
    (hlower : c.toLower = c) : Cron.day env [c] = (Cron.posixDays.get [c]).getD [c] := by
  have hvisible : env.unicode.isSpace c = false := by
    rw [env.unicode.isSpace_ascii c hascii, hspace]
  have hstrip : Text.strip env.unicode.isSpace [c] = [c] :=
    Text.strip_eq_self.mpr ⟨by simpa using hvisible, by simpa using hvisible⟩
  have hfold : env.unicode.lower [c] = [c] := by
    rw [env.unicode.lower_ascii [c] (Text.isAscii_iff.mpr (by simpa using hascii))]
    simp [hlower]
  rw [Cron.day, hstrip, hfold]

theorem day_digit (n : Fin 8) : Cron.day env (Text.ofNat n.val) = (weekday n).name := by
  have hdigit : ∀ n : Fin 8, Text.ofNat n.val = [Nat.digitChar n.val] ∧
      (Nat.digitChar n.val).toNat < 128 ∧ Text.asciiSpace (Nat.digitChar n.val) = false ∧
        (Nat.digitChar n.val).toLower = Nat.digitChar n.val ∧
          Cron.posixDays.get [Nat.digitChar n.val] = some (weekday n).name := by
    decide
  obtain ⟨hc, hascii, hspace, hlower, hget⟩ := hdigit n
  rw [hc, day_char env hascii hspace hlower, hget]
  rfl

theorem day_star : Cron.day env ['*'] = ['*'] :=
  day_char env (by decide) (by decide) (by decide)

theorem not_mem_ofNat {c : Char} (hc : c.isDigit = false) (n : Nat) : c ∉ Text.ofNat n := by
  intro hmem
  rw [Text.ofNat_digits n c hmem] at hc
  cases hc

theorem token_write (item : PosixItem) : Cron.token env item.write = item.translated := by
  cases item with
  | any =>
      have hpart : Text.partition '/' ['*'] = (['*'], false, []) :=
        Text.partition_none (by decide)
      simp [Cron.token, PosixItem.write, hpart, day_star, PosixItem.translated]
  | every step positive =>
      have hpart : Text.partition '/' ('*' :: '/' :: Text.ofNat step) =
          (['*'], true, Text.ofNat step) :=
        Text.partition_append (show '/' ∉ ['*'] by decide) (Text.ofNat step)
      simp [Cron.token, PosixItem.write, hpart, day_star, PosixItem.translated]
  | on n =>
      have hpart : Text.partition '/' (Text.ofNat n.val) = (Text.ofNat n.val, false, []) :=
        Text.partition_none (not_mem_ofNat (by decide) n.val)
      have hdash : '-' ∉ Text.ofNat n.val := not_mem_ofNat (by decide) n.val
      simp [Cron.token, PosixItem.write, hpart, hdash, day_digit, PosixItem.translated]
  | range n m ordered =>
      have hslash : '/' ∉ Text.ofNat n.val ++ '-' :: Text.ofNat m.val := by
        simp [not_mem_ofNat]
      have hpart : Text.partition '/' (Text.ofNat n.val ++ '-' :: Text.ofNat m.val) =
          (Text.ofNat n.val ++ '-' :: Text.ofNat m.val, false, []) := Text.partition_none hslash
      have hdash : Text.partition '-' (Text.ofNat n.val ++ '-' :: Text.ofNat m.val) =
          (Text.ofNat n.val, true, Text.ofNat m.val) :=
        Text.partition_append (not_mem_ofNat (by decide) n.val) (Text.ofNat m.val)
      simp [Cron.token, PosixItem.write, hpart, hdash, day_digit, PosixItem.translated]

theorem comma_not_written (item : PosixItem) : ',' ∉ item.write := by
  cases item with
  | any => decide
  | every step positive => simp [PosixItem.write, not_mem_ofNat]
  | on n => exact not_mem_ofNat (by decide) n.val
  | range n m ordered => simp [PosixItem.write, not_mem_ofNat]

theorem comma_not_translated (item : PosixItem) : ',' ∉ item.translated := by
  have hname : ∀ d : Weekday, ',' ∉ d.name := by decide
  cases item with
  | any => decide
  | every step positive => simp [PosixItem.translated, not_mem_ofNat]
  | on n => exact hname (weekday n)
  | range n m ordered => simp [PosixItem.translated, hname]

theorem translateDayOfWeek_write (field : PosixField) :
    Cron.translateDayOfWeek env field.write =
      Text.join [','] (field.items.map PosixItem.translated) := by
  have hjoin : field.write = [','].intercalate (field.items.map PosixItem.write) := rfl
  have hsplit : field.write.splitOn ',' = field.items.map PosixItem.write := by
    rw [hjoin]
    refine List.splitOn_intercalate ',' (fun text htext => ?_) (by simpa using field.nonempty)
    obtain ⟨item, -, rfl⟩ := List.mem_map.mp htext
    exact comma_not_written item
  have htokens : (field.items.map PosixItem.write).map (Cron.token env) =
      field.items.map PosixItem.translated := by
    rw [List.map_map]
    exact List.map_congr_left fun item _ => token_write env item
  rw [Cron.translateDayOfWeek, hsplit, htokens]

end Translation

namespace CountsFromMonday

variable {accepts : Nat → Bool} {compile : Text → Except Text (Weekday → Bool)}
  (h : CountsFromMonday accepts compile)

include h

theorem item_ok {item : PosixItem} (haccepted : item.accepted accepts = true) :
    compile item.translated = .ok item.counted := by
  cases item with
  | any => exact h.any
  | every step positive => exact h.every step positive haccepted
  | on n => exact h.on (weekday n)
  | range n m ordered =>
      have hnot : ¬(weekday m).fromMonday < (weekday n).fromMonday := by
        rw [← PosixItem.wraps_iff n m ordered]
        simpa [PosixItem.accepted] using haccepted
      exact h.range (weekday n) (weekday m) (not_lt.mp hnot)

theorem item_error {item : PosixItem} (hrefused : item.accepted accepts = false) :
    ∃ e, compile item.translated = .error e := by
  cases item with
  | any => cases hrefused
  | every step positive => exact h.refused step positive hrefused
  | on n => cases hrefused
  | range n m ordered =>
      have hwraps : (PosixItem.range n m ordered).wraps = true := by
        simpa [PosixItem.accepted] using hrefused
      exact h.backwards (weekday n) (weekday m) ((PosixItem.wraps_iff n m ordered).mp hwraps)

theorem list_ok {items : List PosixItem} (hne : items ≠ [])
    (haccepted : ∀ item ∈ items, item.accepted accepts = true) :
    compile (Text.join [','] (items.map PosixItem.translated)) =
      .ok fun d => items.any fun item => item.counted d := by
  induction items with
  | nil => exact absurd rfl hne
  | cons item rest ih =>
      have hitem := h.item_ok (haccepted item List.mem_cons_self)
      cases rest with
      | nil => simpa [Text.join] using hitem
      | cons next rest =>
          have hrest := ih (List.cons_ne_nil next rest)
            fun other hother => haccepted other (List.mem_cons_of_mem item hother)
          exact h.both _ _ _ _ (comma_not_translated item) hitem hrest

theorem list_error {items : List PosixItem}
    (hrefused : ∃ item ∈ items, item.accepted accepts = false) :
    ∃ e, compile (Text.join [','] (items.map PosixItem.translated)) = .error e := by
  induction items with
  | nil => simp at hrefused
  | cons item rest ih =>
      cases rest with
      | nil =>
          have hitem : item.accepted accepts = false := by simpa using hrefused
          simpa [Text.join] using h.item_error hitem
      | cons next rest =>
          apply h.either _ _ (comma_not_translated item)
          by_cases hitem : item.accepted accepts = true
          · refine .inr (ih ?_)
            simpa [hitem] using hrefused
          · exact .inl (h.item_error (by simpa using hitem))

end CountsFromMonday

/-- The days of the items that are read as they are meant. -/
def PosixField.settled (field : PosixField) (d : Weekday) : Bool :=
  field.items.any fun item => !item.misread && item.denotes d

/-- Every item is accepted, and the items that are misread lose and gain no day together but such as
another item has. -/
structure PosixField.Kept (accepts : Nat → Bool) (field : PosixField) : Prop where
  accepted : ∀ item ∈ field.items, item.accepted accepts = true
  days : ∀ d, field.settled d = true ∨
    (field.items.any fun item => item.misread && item.denotes d) =
      field.items.any fun item => item.misread && item.counted d

theorem PosixItem.wraps_of_accepted {accepts : Nat → Bool} (item : PosixItem)
    (h : item.accepted accepts = true) : item.wraps = false := by
  cases item with
  | range n m ordered => simpa [accepted] using h
  | _ => rfl

theorem any_split (p q : PosixItem → Bool) (items : List PosixItem) :
    items.any q = ((items.any fun item => !p item && q item) ||
      items.any fun item => p item && q item) := by
  induction items with
  | nil => rfl
  | cons item items ih =>
      rw [List.any_cons, List.any_cons, List.any_cons, ih]
      cases p item <;> cases q item <;> simp

theorem PosixField.counted_eq_iff {accepts : Nat → Bool} {field : PosixField}
    (haccepted : ∀ item ∈ field.items, item.accepted accepts = true) (d : Weekday) :
    (field.items.any fun item => item.counted d) = field.denotes d ↔
      field.settled d = true ∨ (field.items.any fun item => item.misread && item.denotes d) =
        field.items.any fun item => item.misread && item.counted d := by
  have hsettled : (field.items.any fun item => !item.misread && item.counted d) =
      field.settled d := by
    rw [PosixField.settled, Bool.eq_iff_iff, List.any_eq_true, List.any_eq_true]
    refine exists_congr fun item => and_congr_right fun hitem => ?_
    cases hread : item.misread with
    | true => rfl
    | false => rw [PosixItem.counted_eq (item.wraps_of_accepted (haccepted item hitem)) hread d]
  rw [PosixField.denotes, any_split PosixItem.misread (fun item => item.counted d),
    any_split PosixItem.misread (fun item => item.denotes d), hsettled, ← PosixField.settled]
  cases field.settled d <;> simp [eq_comm]

/-- A trigger is built and fires on the days of the field exactly if the days are kept. -/
theorem weekdays_kept_iff (env : Platform) (aps : Apscheduler) (accepts : Nat → Bool)
    {expression minute hour day month timezone : Text} (field : PosixField)
    (hfields : tokens env.unicode.isSpace expression = [minute, hour, day, month, field.write])
    (haps : CountsFromMonday accepts (aps.dayField minute hour day month timezone)) :
    (∃ trigger, Cron.buildTrigger env aps expression timezone = .ok trigger ∧
        ∀ d, aps.weekdays trigger d = field.denotes d) ↔
      field.Kept accepts := by
  have hbuild : Cron.buildTrigger env aps expression timezone =
      aps.cronTrigger minute hour day month
        (Text.join [','] (field.items.map PosixItem.translated)) timezone := by
    rw [Cron.buildTrigger, hfields]
    dsimp only
    rw [translateDayOfWeek_write]
  rw [hbuild]
  constructor
  · intro ⟨trigger, hbuilt, hdays⟩
    have hfield : aps.dayField minute hour day month timezone
        (Text.join [','] (field.items.map PosixItem.translated)) = .ok (aps.weekdays trigger) := by
      rw [Apscheduler.dayField, hbuilt]
      rfl
    have haccepted : ∀ item ∈ field.items, item.accepted accepts = true := by
      intro item hitem
      by_contra hrefused
      obtain ⟨e, he⟩ := haps.list_error ⟨item, hitem, by simpa using hrefused⟩
      rw [hfield] at he
      cases he
    refine ⟨haccepted, fun d => ?_⟩
    rw [haps.list_ok field.nonempty haccepted] at hfield
    have hcounted := congrFun (Except.ok.inj hfield) d
    rw [← PosixField.counted_eq_iff haccepted d, hcounted, hdays d]
  · intro hkept
    have hfield := haps.list_ok field.nonempty hkept.accepted
    rw [Apscheduler.dayField] at hfield
    cases hbuilt : aps.cronTrigger minute hour day month
        (Text.join [','] (field.items.map PosixItem.translated)) timezone with
    | error e =>
        rw [hbuilt] at hfield
        cases hfield
    | ok trigger =>
        rw [hbuilt] at hfield
        refine ⟨trigger, rfl, fun d => ?_⟩
        have hcounted := congrFun (Except.ok.inj hfield) d
        rw [hcounted]
        exact (PosixField.counted_eq_iff hkept.accepted d).mpr (hkept.days d)

section Reading

variable (accepts : Nat → Bool)

private def named (text : Text) : Option Weekday := Weekday.all.find? fun d => d.name == text

/-- An expression of a field. -/
private def itemDays : Text → Except Text (Weekday → Bool)
  | ['*'] => .ok fun _ => true
  | '*' :: '/' :: digits =>
      let step := Text.toNat digits
      if accepts step then .ok fun d => d.fromMonday % step == 0
      else .error "the step value is higher than the total range of the expression".toList
  | item =>
      let (start, dash, stop) := Text.partition '-' item
      match named start, named (if dash then stop else start) with
      | some first, some last =>
          if first.fromMonday ≤ last.fromMonday then
            .ok fun d => first.fromMonday ≤ d.fromMonday && d.fromMonday ≤ last.fromMonday
          else .error "The minimum value in a range must not be higher than the maximum".toList
      | _, _ => .error "Unrecognized expression".toList

private def listDays : List Text → Except Text (Weekday → Bool)
  | [] => .error []
  | [item] => itemDays accepts item
  | item :: rest => do
      let left ← itemDays accepts item
      let right ← listDays rest
      return fun d => left d || right d

private def apscheduler : Apscheduler where
  Trigger := Weekday → Bool
  cronTrigger _ _ _ _ dayOfWeek _ := listDays accepts (dayOfWeek.splitOn ',')
  weekdays trigger := trigger

private theorem dayField_eq (minute hour day month timezone field : Text) :
    (apscheduler accepts).dayField minute hour day month timezone field =
      listDays accepts (field.splitOn ',') := by
  change (listDays accepts (field.splitOn ',')).map _ = _
  cases listDays accepts (field.splitOn ',') with
  | error e => rfl
  | ok days => rfl

private theorem listDays_single {item : Text} (h : ',' ∉ item) :
    listDays accepts (item.splitOn ',') = itemDays accepts item := by
  rw [List.splitOn_eq_singleton h]
  rfl

private theorem listDays_append {item : Text} (h : ',' ∉ item) (rest : Text) :
    listDays accepts ((item ++ ',' :: rest).splitOn ',') = (do
      let left ← itemDays accepts item
      let right ← listDays accepts (rest.splitOn ',')
      return fun d => left d || right d) := by
  rw [List.splitOn_append_cons_self_of_not_mem h]
  cases hrest : rest.splitOn ',' with
  | nil => exact absurd hrest (List.splitOn_ne_nil ',' rest)
  | cons next more => rfl

private theorem itemDays_name (day : Weekday) :
    itemDays accepts day.name = .ok fun d => d == day := by
  have hitem : itemDays accepts day.name = .ok fun d =>
      day.fromMonday ≤ d.fromMonday && d.fromMonday ≤ day.fromMonday := by
    cases day <;> rfl
  have hsame : ∀ day d : Weekday, (decide (day.fromMonday ≤ d.fromMonday) &&
      decide (d.fromMonday ≤ day.fromMonday)) = (d == day) := by
    decide
  rw [hitem]
  exact congrArg Except.ok (funext fun d => hsame day d)

private theorem itemDays_range (first last : Weekday) :
    itemDays accepts (first.name ++ '-' :: last.name) =
      if first.fromMonday ≤ last.fromMonday then
        .ok fun d => first.fromMonday ≤ d.fromMonday && d.fromMonday ≤ last.fromMonday
      else .error "The minimum value in a range must not be higher than the maximum".toList := by
  cases first <;> cases last <;> rfl

private theorem apscheduler_counts (minute hour day month timezone : Text) :
    CountsFromMonday accepts ((apscheduler accepts).dayField minute hour day month timezone) := by
  have hdigits (step : Nat) : ',' ∉ '*' :: '/' :: Text.ofNat step := by simp [not_mem_ofNat]
  have hname : ∀ d : Weekday, ',' ∉ d.name := by decide
  have hrange (first last : Weekday) : ',' ∉ first.name ++ '-' :: last.name := by simp [hname]
  have hstep (step : Nat) : itemDays accepts ('*' :: '/' :: Text.ofNat step) =
      if accepts step then .ok fun d => d.fromMonday % step == 0
      else .error "the step value is higher than the total range of the expression".toList := by
    have hvalue : Text.toNat (Text.ofNat step) = step := Nat.ofDigitChars_ten_toDigits
    change (if accepts (Text.toNat (Text.ofNat step)) then _ else _) = _
    rw [hvalue]
  constructor
  case any =>
    rw [dayField_eq, listDays_single accepts (by decide)]
    rfl
  case every =>
    intro step _ haccepts
    rw [dayField_eq, listDays_single accepts (hdigits step), hstep, if_pos haccepts]
  case refused =>
    intro step _ hrefused
    rw [dayField_eq, listDays_single accepts (hdigits step), hstep,
      if_neg (Bool.not_eq_true _ ▸ hrefused)]
    exact ⟨_, rfl⟩
  case on =>
    intro d
    rw [dayField_eq, listDays_single accepts (hname d), itemDays_name]
  case range =>
    intro first last hle
    rw [dayField_eq, listDays_single accepts (hrange first last), itemDays_range, if_pos hle]
  case backwards =>
    intro first last hlt
    rw [dayField_eq, listDays_single accepts (hrange first last), itemDays_range,
      if_neg (not_le.mpr hlt)]
    exact ⟨_, rfl⟩
  case both =>
    intro item rest left right hcomma hitem hrest
    rw [dayField_eq, listDays_single accepts hcomma] at hitem
    rw [dayField_eq] at hrest
    rw [dayField_eq, listDays_append accepts hcomma, hitem, hrest]
    rfl
  case either =>
    intro item rest hcomma hfails
    simp only [dayField_eq, listDays_single accepts hcomma] at hfails
    rw [dayField_eq, listDays_append accepts hcomma]
    rcases hfails with ⟨e, he⟩ | ⟨e, he⟩
    · exact ⟨e, by rw [he]; rfl⟩
    · rw [he]
      cases itemDays accepts item with
      | error e' => exact ⟨e', rfl⟩
      | ok left => exact ⟨e, rfl⟩

end Reading

private def workdays : PosixField where
  items := [.range 1 5 (by decide), .on 0, .every 1 (by decide)]
  nonempty := by simp

theorem weekdays_kept_iff_workdays :
    (∃ trigger, Cron.buildTrigger .ascii (apscheduler fun step => step ≤ 6)
          "30 6 * * 1-5,0,*/1".toList = .ok trigger ∧
        ∀ d, (apscheduler fun step => step ≤ 6).weekdays trigger d = workdays.denotes d) ↔
      workdays.Kept fun step => step ≤ 6 := by
  have hfields : tokens Unicode.ascii.isSpace "30 6 * * 1-5,0,*/1".toList =
      ["30".toList, "6".toList, ['*'], ['*'], workdays.write] := by
    decide
  exact weekdays_kept_iff .ascii _ _ workdays hfields (apscheduler_counts ..)

/-- A range from Sunday runs backwards when it is counted from Monday. -/
theorem weekdays_differ :
    ¬∀ (env : Platform) (aps : Apscheduler) (expression minute hour day month timezone : Text)
      (field : PosixField),
        tokens env.unicode.isSpace expression = [minute, hour, day, month, field.write] →
          CountsFromMonday (fun _ => true) (aps.dayField minute hour day month timezone) →
            ∃ trigger, Cron.buildTrigger env aps expression timezone = .ok trigger ∧
              ∀ d, aps.weekdays trigger d = field.denotes d := by
  intro h
  have hfields : tokens Unicode.ascii.isSpace "30 6 * * 0-6".toList =
      ["30".toList, "6".toList, ['*'], ['*'], "0-6".toList] := by
    decide
  obtain ⟨trigger, hbuilt, -⟩ := h .ascii (apscheduler fun _ => true) _ _ _ _ _ "UTC".toList
    ⟨[.range 0 6 (by decide)], by simp⟩ hfields (apscheduler_counts ..)
  cases hbuilt

end LeadPipe
