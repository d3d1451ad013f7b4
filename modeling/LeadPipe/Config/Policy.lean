import LeadPipe.Config.Loader
import LeadPipe.Python.Dicts

/-!
# Policies as they are configured

`app/fetch/policy.py`. The values of the options are not checked: a policy holds whatever YAML or
the interpolation has made of them.
-/

namespace LeadPipe.Config

inductive PolicyField where
  | timeout
  | connectTimeout
  | maxResponseBytes
  | maxRedirects
  | retries
  | backoffBase
  | backoffMax
  | requestsPerSecond
  | maxConcurrency
  | respectRobots
  | robotsTtl
  | allowPrivateHosts
  | contact
  deriving DecidableEq

inductive PolicyField.Kind where
  | numeric
  | boolean
  | text
  deriving DecidableEq

namespace PolicyField

def all : List PolicyField :=
  [timeout, connectTimeout, maxResponseBytes, maxRedirects, retries, backoffBase, backoffMax,
    requestsPerSecond, maxConcurrency, respectRobots, robotsTtl, allowPrivateHosts, contact]

theorem mem_all (field : PolicyField) : field ∈ all := by cases field <;> decide

def name : PolicyField → Text
  | timeout => "timeout".toList
  | connectTimeout => "connect_timeout".toList
  | maxResponseBytes => "max_response_bytes".toList
  | maxRedirects => "max_redirects".toList
  | retries => "retries".toList
  | backoffBase => "backoff_base".toList
  | backoffMax => "backoff_max".toList
  | requestsPerSecond => "requests_per_second".toList
  | maxConcurrency => "max_concurrency".toList
  | respectRobots => "respect_robots".toList
  | robotsTtl => "robots_ttl".toList
  | allowPrivateHosts => "allow_private_hosts".toList
  | contact => "contact".toList

/-- The annotations, `int` and `float` alike. -/
def kind : PolicyField → Kind
  | respectRobots | allowPrivateHosts => .boolean
  | contact => .text
  | _ => .numeric

theorem name_injective : Function.Injective name := by
  intro f g h
  have hall : ∀ f ∈ all, ∀ g ∈ all, f.name = g.name → f = g := by decide +kernel
  exact hall f f.mem_all g g.mem_all h

theorem name_not_declared (field : PolicyField) : field.name ∉ declaredFields := by
  cases field <;> decide

variable {N : Type} [NatCast N] [OfScientific N]

def default : PolicyField → Yaml N
  | timeout => .number 10.0
  | connectTimeout => .number 5.0
  | maxResponseBytes => .number (5000000 : Nat)
  | maxRedirects => .number (5 : Nat)
  | retries => .number (2 : Nat)
  | backoffBase => .number 0.5
  | backoffMax => .number 8.0
  | requestsPerSecond => .number 1.0
  | maxConcurrency => .number (4 : Nat)
  | respectRobots => .bool true
  | robotsTtl => .number 3600.0
  | allowPrivateHosts => .bool false
  | contact => .null

end PolicyField

/-- Python's number, if the value is one; comparing anything else with a number is a `TypeError`. -/
def Yaml.number? {N : Type} [Zero N] [One N] : Yaml N → Option N
  | .number n => some n
  | .bool b => some (if b then 1 else 0)
  | _ => none

/-- `FetchPolicy`, whose fields hold values of any type. -/
structure FetchPolicy (N : Type) where
  value : PolicyField → Yaml N

namespace FetchPolicy

variable {N : Type} [NatCast N] [OfScientific N]

def fromOptions (options : Dict (Yaml N)) : FetchPolicy N :=
  let known := PolicyField.all.map PolicyField.name
  let kept := options.filter fun entry => known.contains entry.1
  ⟨fun field => (Dict.get kept field.name).getD field.default⟩

section Comparisons

variable [Zero N] [One N] [LT N] [DecidableLT N]

/-- `x > limit` -/
def above (policy : FetchPolicy N) (field : PolicyField) (x : N) : Option Bool :=
  (policy.value field).number?.map fun limit => decide (limit < x)

/-- `x < limit` -/
def below (policy : FetchPolicy N) (field : PolicyField) (x : N) : Option Bool :=
  (policy.value field).number?.map fun limit => decide (x < limit)

/-- `min_interval`; `none` for `TypeError`. -/
def minInterval [Div N] (policy : FetchPolicy N) : Option N :=
  (policy.value .requestsPerSecond).number?.map fun rps => if 0 < rps then 1 / rps else 0

end Comparisons

/-- Whether `if policy.field` holds. -/
def holds [Zero N] [DecidableEq N] (policy : FetchPolicy N) (field : PolicyField) : Bool :=
  (policy.value field).truthy

theorem fromOptions_value (options : Dict (Yaml N)) (field : PolicyField) :
    (fromOptions options).value field = (Dict.get options field.name).getD field.default := by
  have hknown : (PolicyField.all.map PolicyField.name).contains field.name = true :=
    List.contains_iff_mem.mpr (List.mem_map_of_mem field.mem_all)
  have hkept := Dict.get_filter (PolicyField.all.map PolicyField.name).contains hknown options
  exact congrArg (fun found => found.getD field.default) hkept

end FetchPolicy

end LeadPipe.Config
