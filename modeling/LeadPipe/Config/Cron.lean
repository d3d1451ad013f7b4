import Mathlib.Data.Fintype.Defs
import LeadPipe.Framework.Tokens
import LeadPipe.Platform

/-!
# Schedules

`app/config/cron.py`, and the check of `ScheduleConfig.cron`. The trigger itself is APScheduler's.
-/

namespace LeadPipe

open Framework

inductive Weekday where
  | mon | tue | wed | thu | fri | sat | sun
  deriving DecidableEq

namespace Weekday

/-- The week as APScheduler counts it. -/
def all : List Weekday := [mon, tue, wed, thu, fri, sat, sun]

theorem mem_all (d : Weekday) : d ∈ all := by cases d <;> decide

instance : Fintype Weekday := ⟨⟨all, by decide⟩, mem_all⟩

/-- As APScheduler writes it. -/
def name : Weekday → Text
  | mon => "mon".toList
  | tue => "tue".toList
  | wed => "wed".toList
  | thu => "thu".toList
  | fri => "fri".toList
  | sat => "sat".toList
  | sun => "sun".toList

def fromMonday : Weekday → Nat
  | mon => 0
  | tue => 1
  | wed => 2
  | thu => 3
  | fri => 4
  | sat => 5
  | sun => 6

/-- The day's number in POSIX. -/
def fromSunday (d : Weekday) : Nat := (d.fromMonday + 1) % 7

end Weekday

/-- `CronTrigger`, which raises `ValueError` for a field it cannot read, and the weekdays on which a
trigger may fire. -/
structure Apscheduler where
  Trigger : Type
  cronTrigger : (minute hour day month dayOfWeek timezone : Text) → Except Text Trigger
  weekdays : Trigger → Weekday → Bool

variable (env : Platform)

namespace Cron

def posixDays : Dict Text :=
  [("0", "sun"), ("1", "mon"), ("2", "tue"), ("3", "wed"), ("4", "thu"), ("5", "fri"),
    ("6", "sat"), ("7", "sun")].map fun p => (p.1.toList, p.2.toList)

def fields : Nat := 5

/-- `_day` -/
def day (value : Text) : Text :=
  let cleaned := env.unicode.lower (Text.strip env.unicode.isSpace value)
  (posixDays.get cleaned).getD cleaned

/-- `_token` -/
def token (token : Text) : Text :=
  let (value, separator, step) := Text.partition '/' token
  let suffix := if separator then '/' :: step else []
  if value.contains '-' then
    let (start, _, stop) := Text.partition '-' value
    day env start ++ ['-'] ++ day env stop ++ suffix
  else day env value ++ suffix

def translateDayOfWeek (field : Text) : Text :=
  Text.join [','] ((field.splitOn ',').map (token env))

def buildTrigger (aps : Apscheduler) (expression : Text) (timezone : Text := "UTC".toList) :
    Except Text aps.Trigger :=
  match tokens env.unicode.isSpace expression with
  | [minute, hour, day, month, dayOfWeek] =>
      aps.cronTrigger minute hour day month (translateDayOfWeek env dayOfWeek) timezone
  | parts => .error ("expected ".toList ++ Text.ofNat fields ++ " fields, got ".toList ++
      Text.ofNat parts.length)

end Cron

/-- `cron_must_parse` -/
def ScheduleConfig.cronMustParse (aps : Apscheduler) (value : Text) : Except Text Text :=
  match Cron.buildTrigger env aps value with
  | .ok _ => .ok value
  | .error exc => .error ("invalid cron expression '".toList ++ value ++ "': ".toList ++ exc)

end LeadPipe
