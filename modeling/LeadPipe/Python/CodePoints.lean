import LeadPipe.Domain.Models
import LeadPipe.Python.Strings

/-!
# Strings with lone surrogates

A `str` holds code points: `json.loads` turns the escape `\ud800` into a surrogate that stands
alone. The texts of the other modules are the strings without one. Here is what the website code
calls of `str` and `urllib.parse` for every string, read after the same sources, and how it looks
when every surrogate is shown as a private-use character.
-/

namespace LeadPipe

open Framework Urllib

inductive CodePoint where
  | scalar (c : Char)
  | surrogate (n : Fin 2048)
  deriving DecidableEq, Repr

abbrev Str := List CodePoint

namespace CodePoint

def value : CodePoint → Nat
  | scalar c => c.toNat
  | surrogate n => 0xD800 + n.val

theorem value_injective : Function.Injective value := by
  intro a b h
  cases a with
  | scalar c =>
      cases b with
      | scalar d => exact congrArg scalar (Char.toNat_inj.mp h)
      | surrogate n =>
          have hvalid := c.valid
          simp only [value, Char.toNat, UInt32.isValidChar, Nat.isValidChar] at h hvalid
          omega
  | surrogate m =>
      cases b with
      | scalar d =>
          have hvalid := d.valid
          simp only [value, Char.toNat, UInt32.isValidChar, Nat.isValidChar] at h hvalid
          omega
      | surrogate n =>
          have hval : m.val = n.val := by
            simp only [value] at h
            omega
          exact congrArg surrogate (Fin.ext hval)

instance : LinearOrder CodePoint := LinearOrder.lift' value value_injective

/-- A property no surrogate has. -/
def has (p : Char → Bool) : CodePoint → Bool
  | scalar c => p c
  | surrogate _ => false

end CodePoint

namespace Str

open CodePoint

def ofText (s : Text) : Str := s.map scalar

/-- The text of a string without surrogates. -/
def toText : Str → Option Text
  | [] => some []
  | scalar c :: s => (toText s).map (c :: ·)
  | surrogate _ :: _ => none

/-- The database has no entry for a surrogate: what it does to a text is done to the runs of
scalar values between them. -/
def onRuns (f : Text → Text) : Text → Str → Str
  | run, [] => ofText (f run.reverse)
  | run, scalar c :: s => onRuns f (c :: run) s
  | run, surrogate n :: s => ofText (f run.reverse) ++ surrogate n :: onRuns f [] s

def lower (uc : Unicode) (s : Str) : Str := onRuns uc.lower [] s

def isAscii (s : Str) : Bool := s.all (has fun c => c.toNat < 128)

structure SplitResult where
  scheme : Text
  netloc : Str
  path : Str
  query : Str
  fragment : Str
  deriving DecidableEq

def splitScheme (url : Str) : Text × Str :=
  match Text.partition (scalar ':') url with
  | (scheme, true, rest) =>
      match toText scheme with
      | some (c :: cs) =>
          if c.isAlpha && (c :: cs).all isSchemeChar then ((c :: cs).map Char.toLower, rest)
          else ([], url)
      | _ => ([], url)
  | _ => ([], url)

def checkNetloc (uc : Unicode) (netloc : Str) : Bool :=
  if netloc.isEmpty || isAscii netloc then true
  else
    let n := netloc.filter fun a => !has (fun c => c == '@' || c == ':' || c == '#' || c == '?') a
    let n' := onRuns uc.nfkc [] n
    n == n' ||
      !n'.any (has fun c => c == '/' || c == '?' || c == '#' || c == '@' || c == ':')

def isIPvFuture (host : Str) : Bool :=
  match Text.partition (scalar '.') (host.drop 1) with
  | (version, true, rest) => !version.isEmpty && version.all (has isHex) && !rest.isEmpty
  | _ => false

def checkBracketedHost (isIPv6 : Str → Bool) (host : Str) : Bool :=
  if Text.startsWith [scalar 'v'] host then isIPvFuture host else isIPv6 host

def checkBracketedNetloc (isIPv6 : Str → Bool) (netloc : Str) : Bool :=
  let hostinfo := (Text.rpartition (scalar '@') netloc).2.2
  match Text.partition (scalar '[') hostinfo with
  | (before, true, bracketed) =>
      let (host, _, port) := Text.partition (scalar ']') bracketed
      before.isEmpty && (port.isEmpty || Text.startsWith [scalar ':'] port) &&
        checkBracketedHost isIPv6 host
  | (_, false, _) => checkBracketedHost isIPv6 (Text.partition (scalar ':') hostinfo).1

def authority (rest : Str) : Str × Str :=
  if Text.startsWith [scalar '/', scalar '/'] rest then
    ((rest.drop 2).takeWhile fun a => !has isDelimiter a,
      (rest.drop 2).dropWhile fun a => !has isDelimiter a)
  else ([], rest)

def urlsplit (uc : Unicode) (isIPv6 : Str → Bool) (url : Str) : Option SplitResult :=
  let url := (Text.lstrip (has isC0OrSpace) url).filter fun a => !has isUnsafeByte a
  let (scheme, url) := splitScheme url
  let (netloc, url) := authority url
  let opened := netloc.contains (scalar '[')
  let closed := netloc.contains (scalar ']')
  if opened != closed then none
  else if opened && closed && !checkBracketedNetloc isIPv6 netloc then none
  else
    let (url, _, fragment) := Text.partition (scalar '#') url
    let (path, _, query) := Text.partition (scalar '?') url
    if checkNetloc uc netloc then some ⟨scheme, netloc, path, query, fragment⟩ else none

namespace SplitResult

def hostinfo (r : SplitResult) : Str × Option Str :=
  let hostinfo := (Text.rpartition (scalar '@') r.netloc).2.2
  match Text.partition (scalar '[') hostinfo with
  | (_, true, bracketed) =>
      let (host, _, rest) := Text.partition (scalar ']') bracketed
      (host, Text.orNone (Text.partition (scalar ':') rest).2.2)
  | (_, false, _) =>
      let (host, _, port) := Text.partition (scalar ':') hostinfo
      (host, Text.orNone port)

def hostname (uc : Unicode) (r : SplitResult) : Option Str :=
  let host := r.hostinfo.1
  if host.isEmpty then none
  else
    let (name, percent, zone) := Text.partition (scalar '%') host
    some (lower uc name ++ (if percent then [scalar '%'] else []) ++ zone)

def port (r : SplitResult) : Option (Option Nat) :=
  match r.hostinfo.2 with
  | none => some none
  | some p =>
      match toText p with
      | some p =>
          if p.isDigit && p.length ≤ Urllib.SplitResult.maxIntDigits && p.toNat ≤ 65535 then
            some (some p.toNat)
          else none
      | none => none

end SplitResult

def urlunsplit (scheme : Text) (netloc path : Str) (query : Text) (fragment : Str) : Str :=
  let path :=
    if !path.isEmpty && !Text.startsWith [scalar '/'] path then scalar '/' :: path else path
  ofText (scheme ++ [':', '/', '/']) ++ netloc ++ path ++
    (if query.isEmpty then [] else ofText ('?' :: query)) ++
    (if fragment.isEmpty then [] else scalar '#' :: fragment)

/-- Percent-encodings are decoded within the ASCII runs and never give a surrogate. -/
def unquoteRuns : Text → Str → Str
  | run, [] => ofText (decodeRun run.reverse)
  | run, scalar c :: s =>
      if c.toNat < 128 then unquoteRuns (c :: run) s
      else ofText (decodeRun run.reverse) ++ scalar c :: unquoteRuns [] s
  | run, surrogate n :: s => ofText (decodeRun run.reverse) ++ surrogate n :: unquoteRuns [] s

def unquote (s : Str) : Str := if s.contains (scalar '%') then unquoteRuns [] s else s

def unquotePlus (s : Str) : Str :=
  unquote (s.map fun a => if a == scalar '+' then scalar ' ' else a)

def parseQsl (query : Str) : List (Str × Str) :=
  ((query.splitOn (scalar '&')).filter fun part => !part.isEmpty).map fun part =>
    let (name, _, value) := Text.partition (scalar '=') part
    (unquotePlus name, unquotePlus value)

def sortParams (params : List (Str × Str)) : List (Str × Str) :=
  ranked (fun p => toLex p) params

def pairText (p : Str × Str) : Option (Text × Text) :=
  (toText p.1).bind fun name => (toText p.2).map fun value => (name, value)

/-- `urlencode`: a surrogate has no UTF-8, and `UnicodeEncodeError` is a `ValueError`. -/
def urlencode (params : List (Str × Str)) : Except PyError Text :=
  match params.mapM pairText with
  | some params => .ok (Urllib.urlencode params)
  | none => .error .valueError

end Str

def standIn : Char := '\uE000'

/-- What the database says of private-use characters: they are no spaces, have no case and are
composed with nothing. -/
structure Unicode.KeepsPrivate (uc : Unicode) : Prop where
  space : uc.isSpace standIn = false
  lower : ∀ a b, uc.lower (a ++ standIn :: b) = uc.lower a ++ standIn :: uc.lower b
  nfkc : ∀ a b, uc.nfkc (a ++ standIn :: b) = uc.nfkc a ++ standIn :: uc.nfkc b

theorem Unicode.ascii_keepsPrivate : Unicode.ascii.KeepsPrivate where
  space := by decide
  lower a b := by
    have hkept : standIn.toLower = standIn := by decide
    have hmap : (a ++ standIn :: b).map Char.toLower =
        a.map Char.toLower ++ standIn :: b.map Char.toLower := by
      rw [List.map_append, List.map_cons, hkept]
    exact hmap
  nfkc _ _ := rfl

namespace CodePoint

def shown : CodePoint → Char
  | scalar c => c
  | surrogate _ => standIn

theorem shown_distinct {c : Char} (hc : c ≠ standIn) : Text.Distinct shown (scalar c) := by
  intro a h
  cases a with
  | scalar d => exact congrArg scalar h
  | surrogate n => exact absurd h.symm hc

theorem shown_has {p : Char → Bool} (hp : p standIn = false) : p ∘ shown = has p := by
  funext a
  cases a with
  | scalar c => rfl
  | surrogate n => exact hp

end CodePoint

namespace Str

open CodePoint

def shown (s : Str) : Text := s.map CodePoint.shown

variable {uc : Unicode} {s t : Str} {c : Char}

@[simp] theorem shown_nil : shown [] = [] := rfl

@[simp] theorem shown_scalar : shown (scalar c :: s) = c :: shown s := rfl

@[simp] theorem shown_surrogate {n : Fin 2048} : shown (surrogate n :: s) = standIn :: shown s := rfl

@[simp] theorem shown_append : shown (s ++ t) = shown s ++ shown t := List.map_append

@[simp] theorem shown_ofText (t : Text) : shown (ofText t) = t := by
  rw [shown, ofText, List.map_map]
  exact List.map_id t

@[simp] theorem shown_isEmpty : (shown s).isEmpty = s.isEmpty := by
  cases s <;> rfl

theorem toText_cases (s : Str) :
    toText s = some (shown s) ∨ (toText s = none ∧ standIn ∈ shown s) := by
  induction s with
  | nil => exact .inl rfl
  | cons a s ih =>
      cases a with
      | surrogate n => exact .inr ⟨rfl, List.mem_cons_self⟩
      | scalar c =>
          rcases ih with htext | ⟨hnone, hmem⟩
          · exact .inl (by simp [toText, htext])
          · exact .inr ⟨by simp [toText, hnone], List.mem_cons_of_mem c hmem⟩

/-- What only texts without the private-use character have is read off the string. -/
theorem toText_any {p : Text → Bool} (hp : ∀ t, p t = true → standIn ∉ t) :
    (toText s).any p = p (shown s) := by
  rcases toText_cases s with htext | ⟨hnone, hmem⟩
  · rw [htext, Option.any_some]
  · rw [hnone, Option.any_none]
    cases hshown : p (shown s) with
    | false => rfl
    | true => exact absurd hmem (hp _ hshown)

theorem shown_onRuns {f : Text → Text}
    (hf : ∀ a b, f (a ++ standIn :: b) = f a ++ standIn :: f b) (run : Text) :
    shown (onRuns f run s) = f (run.reverse ++ shown s) := by
  induction s generalizing run with
  | nil => simp [onRuns]
  | cons a s ih =>
      cases a with
      | scalar c => simp [onRuns, ih]
      | surrogate n => simp [onRuns, ih, hf]

theorem shown_lower (huc : uc.KeepsPrivate) : shown (lower uc s) = uc.lower (shown s) :=
  shown_onRuns huc.lower []

theorem shown_all {p : Char → Bool} (hp : p standIn = false) :
    (shown s).all p = s.all (has p) := by
  rw [shown, List.all_map, shown_has hp]

theorem shown_any {p : Char → Bool} (hp : p standIn = false) :
    (shown s).any p = s.any (has p) := by
  rw [shown, List.any_map, shown_has hp]

theorem shown_isAscii : Text.isAscii (shown s) = isAscii s := shown_all (by decide)

theorem shown_contains (hc : c ≠ standIn) : (shown s).contains c = s.contains (scalar c) :=
  (shown_distinct hc).contains

theorem ofText_distinct {t : Text} (ht : standIn ∉ t) :
    ∀ a ∈ ofText t, Text.Distinct CodePoint.shown a := by
  intro a ha
  obtain ⟨c, hc, rfl⟩ := List.mem_map.mp ha
  exact shown_distinct fun heq => ht (heq ▸ hc)

theorem shown_startsWith {pre : Text} (hpre : standIn ∉ pre) :
    Text.startsWith pre (shown s) = Text.startsWith (ofText pre) s := by
  have h := Text.startsWith_map (s := s) (ofText_distinct hpre)
  rwa [show (ofText pre).map CodePoint.shown = pre from shown_ofText pre] at h

theorem shown_containsSub {sub : Text} (hsub : standIn ∉ sub) :
    Text.containsSub sub (shown s) = Text.containsSub (ofText sub) s := by
  have h := Text.containsSub_map (s := s) (ofText_distinct hsub)
  rwa [show (ofText sub).map CodePoint.shown = sub from shown_ofText sub] at h

theorem shown_removePrefix {pre : Text} (hpre : standIn ∉ pre) :
    Text.removePrefix pre (shown s) = shown (Text.removePrefix (ofText pre) s) := by
  have h := Text.removePrefix_map (s := s) (ofText_distinct hpre)
  rwa [show (ofText pre).map CodePoint.shown = pre from shown_ofText pre] at h

theorem shown_partition (hc : c ≠ standIn) (s : Str) :
    Text.partition c (shown s) =
      (shown (Text.partition (scalar c) s).1, (Text.partition (scalar c) s).2.1,
        shown (Text.partition (scalar c) s).2.2) :=
  Text.partition_map (shown_distinct hc)

theorem shown_rpartition (hc : c ≠ standIn) (s : Str) :
    Text.rpartition c (shown s) =
      (shown (Text.rpartition (scalar c) s).1, (Text.rpartition (scalar c) s).2.1,
        shown (Text.rpartition (scalar c) s).2.2) :=
  Text.rpartition_map (shown_distinct hc)

def SplitResult.shown (r : SplitResult) : Urllib.SplitResult :=
  ⟨r.scheme, Str.shown r.netloc, Str.shown r.path, Str.shown r.query, Str.shown r.fragment⟩

theorem shown_splitScheme (url : Str) :
    Urllib.splitScheme (shown url) = ((splitScheme url).1, shown (splitScheme url).2) := by
  rw [Urllib.splitScheme, splitScheme, shown_partition (by decide)]
  rcases Text.partition (scalar ':') url with ⟨scheme, found, rest⟩
  cases found with
  | false => rfl
  | true =>
      dsimp only
      rcases toText_cases scheme with htext | ⟨hnone, hmem⟩
      · rw [htext]
        cases shown scheme with
        | nil => rfl
        | cons c cs =>
            dsimp only
            split <;> rfl
      · -- the private-use character is no part of a scheme
        have hall : (shown scheme).all isSchemeChar = false := by
          rw [← Bool.not_eq_true, List.all_eq_true]
          exact fun h => absurd (h standIn hmem) (by decide)
        rw [hnone]
        cases hscheme : shown scheme with
        | nil => rfl
        | cons c cs =>
            rw [hscheme] at hall
            simp [hall]

theorem shown_checkNetloc (huc : uc.KeepsPrivate) {netloc : Str}
    (hinside : ∀ a ∈ netloc, has isDelimiter a = false) :
    Urllib.checkNetloc uc (shown netloc) = checkNetloc uc netloc := by
  have hmarks : (fun c => !(c == '@' || c == ':' || c == '#' || c == '?')) ∘ CodePoint.shown =
      fun a => !has (fun c => c == '@' || c == ':' || c == '#' || c == '?') a := by
    rw [← shown_has (by decide)]
    rfl
  rw [Urllib.checkNetloc, checkNetloc, shown_isEmpty, shown_isAscii]
  split
  · rfl
  · have hfilter : (shown netloc).filter (fun c => !(c == '@' || c == ':' || c == '#' || c == '?')) =
        shown (netloc.filter fun a =>
          !has (fun c => c == '@' || c == ':' || c == '#' || c == '?') a) := by
      rw [shown, List.filter_map, hmarks]
      rfl
    dsimp only
    rw [hfilter]
    generalize hn : (netloc.filter fun a =>
      !has (fun c => c == '@' || c == ':' || c == '#' || c == '?') a) = n
    have hnfkc : uc.nfkc (shown n) = shown (onRuns uc.nfkc [] n) :=
      (shown_onRuns huc.nfkc []).symm
    rw [hnfkc, shown_any (by decide)]
    by_cases hsame : onRuns uc.nfkc [] n = n
    · simp [hsame]
    · have hne : (n == onRuns uc.nfkc [] n) = false := beq_false_of_ne fun heq => hsame heq.symm
      rw [hne, Bool.false_or]
      cases hshown : shown n == shown (onRuns uc.nfkc [] n) with
      | false => rfl
      | true =>
          -- what looks the same has none of the marks, because `n` has none
          rw [Bool.true_or, eq_comm, Bool.not_eq_true', ← shown_any (by decide),
            ← eq_of_beq hshown, shown_any (by decide), ← hn, ← Bool.not_eq_true, List.any_eq_true]
          rintro ⟨a, ha, hmark⟩
          obtain ⟨ha, hkept⟩ := List.mem_filter.mp ha
          have hout := hinside a ha
          cases a with
          | surrogate m => cases hmark
          | scalar c => simp_all [has, isDelimiter]

variable {isIPv6 : Str → Bool}

/-- `ip_address` takes every character beyond ASCII alike: in the address it is an error, in the
zone it is not looked at. -/
def ReadsAlike (isIPv6 : Str → Bool) : Prop :=
  ∀ host, isIPv6 (ofText (shown host)) = isIPv6 host

theorem shown_isIPvFuture (host : Str) : Urllib.isIPvFuture (shown host) = isIPvFuture host := by
  have hdrop : (shown host).drop 1 = shown (host.drop 1) := (List.map_drop ..).symm
  rw [Urllib.isIPvFuture, isIPvFuture, hdrop, shown_partition (by decide)]
  rcases Text.partition (scalar '.') (host.drop 1) with ⟨version, found, rest⟩
  cases found with
  | false => rfl
  | true =>
      dsimp only
      rw [shown_isEmpty, shown_isEmpty, shown_all (by decide)]

theorem shown_checkBracketedHost (hip : ReadsAlike isIPv6) (host : Str) :
    Urllib.checkBracketedHost (fun h => isIPv6 (ofText h)) (shown host) =
      checkBracketedHost isIPv6 host := by
  rw [Urllib.checkBracketedHost, checkBracketedHost, shown_startsWith (by decide),
    shown_isIPvFuture, hip]
  rfl

theorem shown_checkBracketedNetloc (hip : ReadsAlike isIPv6) (netloc : Str) :
    Urllib.checkBracketedNetloc (fun h => isIPv6 (ofText h)) (shown netloc) =
      checkBracketedNetloc isIPv6 netloc := by
  rw [Urllib.checkBracketedNetloc, checkBracketedNetloc, shown_rpartition (by decide)]
  dsimp only
  rw [shown_partition (by decide)]
  rcases Text.partition (scalar '[') (Text.rpartition (scalar '@') netloc).2.2 with
    ⟨before, found, bracketed⟩
  cases found with
  | false =>
      dsimp only
      rw [shown_partition (by decide), shown_checkBracketedHost hip]
  | true =>
      dsimp only
      rw [shown_partition (by decide)]
      dsimp only
      rw [shown_isEmpty, shown_isEmpty, shown_startsWith (by decide),
        shown_checkBracketedHost hip]
      rfl

theorem shown_stripped (url : Str) :
    (Text.lstrip isC0OrSpace (shown url)).filter (fun c => !isUnsafeByte c) =
      shown ((Text.lstrip (has isC0OrSpace) url).filter fun a => !has isUnsafeByte a) := by
  have hsafe : (fun c => !isUnsafeByte c) ∘ CodePoint.shown = fun a => !has isUnsafeByte a := by
    rw [← shown_has (by decide)]
    rfl
  rw [shown, Text.lstrip_map, shown_has (by decide), List.filter_map, hsafe]
  rfl

theorem shown_authority (rest : Str) :
    Urllib.authority (shown rest) = Prod.map shown shown (authority rest) := by
  have hinside : (fun c => !isDelimiter c) ∘ CodePoint.shown = fun a => !has isDelimiter a := by
    rw [← shown_has (by decide)]
    rfl
  have hstart : Text.startsWith ['/', '/'] (shown rest) =
      Text.startsWith [scalar '/', scalar '/'] rest := shown_startsWith (by decide)
  have hdrop : (shown rest).drop 2 = (rest.drop 2).map CodePoint.shown := (List.map_drop ..).symm
  rw [Urllib.authority, authority, hstart, hdrop, List.takeWhile_map, List.dropWhile_map, hinside]
  split <;> rfl

theorem authority_inside (rest : Str) : ∀ a ∈ (authority rest).1, has isDelimiter a = false := by
  intro a ha
  unfold authority at ha
  split at ha
  · simpa using List.mem_takeWhile_imp ha
  · cases ha

theorem shown_urlsplit (huc : uc.KeepsPrivate) (hip : ReadsAlike isIPv6) (url : Str) :
    Urllib.urlsplit uc (fun h => isIPv6 (ofText h)) (shown url) =
      (urlsplit uc isIPv6 url).map SplitResult.shown := by
  unfold Urllib.urlsplit urlsplit
  rw [shown_stripped]
  generalize (Text.lstrip (has isC0OrSpace) url).filter (fun a => !has isUnsafeByte a) = url
  dsimp only
  rw [shown_splitScheme]
  rcases splitScheme url with ⟨scheme, url⟩
  have hparts : (if Text.startsWith ['/', '/'] (shown url) = true then
      (((shown url).drop 2).takeWhile fun c => !isDelimiter c,
        ((shown url).drop 2).dropWhile fun c => !isDelimiter c)
      else ([], shown url)) = Prod.map shown shown (authority url) := shown_authority url
  have hinside := authority_inside url
  dsimp only
  rw [hparts]
  clear hparts
  generalize authority url = parts at hinside ⊢
  rcases parts with ⟨netloc, rest⟩
  simp only [Prod.map_fst, Prod.map_snd, shown_contains (show '[' ≠ standIn by decide),
    shown_contains (show ']' ≠ standIn by decide), shown_checkBracketedNetloc hip,
    shown_checkNetloc huc hinside, shown_partition (show '#' ≠ standIn by decide),
    shown_partition (show '?' ≠ standIn by decide)]
  split
  · rfl
  · split
    · rfl
    · split <;> rfl

namespace SplitResult

variable (r : SplitResult)

theorem shown_hostinfo :
    r.shown.hostinfo = (Str.shown r.hostinfo.1, r.hostinfo.2.map Str.shown) := by
  have horNone (s : Str) : Text.orNone (Str.shown s) = (Text.orNone s).map Str.shown := by
    cases s <;> rfl
  rw [Urllib.SplitResult.hostinfo, hostinfo, shown, shown_rpartition (by decide)]
  dsimp only
  rw [shown_partition (by decide)]
  rcases Text.partition (scalar '[') (Text.rpartition (scalar '@') r.netloc).2.2 with
    ⟨before, found, bracketed⟩
  cases found with
  | false =>
      dsimp only
      rw [shown_partition (by decide)]
      dsimp only
      rw [horNone]
  | true =>
      dsimp only
      rw [shown_partition (by decide)]
      dsimp only
      rw [shown_partition (by decide), horNone]

theorem shown_hostname (huc : uc.KeepsPrivate) :
    r.shown.hostname uc = (r.hostname uc).map Str.shown := by
  rw [Urllib.SplitResult.hostname, hostname, shown_hostinfo]
  dsimp only
  rw [shown_isEmpty]
  split
  · rfl
  · rw [shown_partition (by decide)]
    rcases Text.partition (scalar '%') r.hostinfo.1 with ⟨name, percent, zone⟩
    cases percent <;> simp [shown_lower huc]

theorem shown_port : r.shown.port = r.port := by
  rw [Urllib.SplitResult.port, port, shown_hostinfo]
  cases r.hostinfo.2 with
  | none => rfl
  | some p =>
      rw [Option.map_some]
      dsimp only
      rcases toText_cases p with htext | ⟨hnone, hmem⟩
      · rw [htext]
      · have hdigits : Text.isDigit (Str.shown p) = false := by
          rw [Text.isDigit, Bool.and_eq_false_iff, ← Bool.not_eq_true (List.all _ _),
            List.all_eq_true]
          exact .inr fun h => absurd (h standIn hmem) (by decide)
        rw [hnone, hdigits]
        rfl

end SplitResult

theorem shown_unquoteRuns (run : Text) :
    Urllib.unquoteRuns run (shown s) = shown (unquoteRuns run s) := by
  induction s generalizing run with
  | nil => simp [unquoteRuns, Urllib.unquoteRuns]
  | cons a s ih =>
      cases a with
      | scalar c =>
          rw [shown_scalar, unquoteRuns, Urllib.unquoteRuns]
          split
          · exact ih (c :: run)
          · simp [ih]
      | surrogate n =>
          have hascii : ¬standIn.toNat < 128 := by decide
          rw [shown_surrogate, unquoteRuns, Urllib.unquoteRuns, if_neg hascii]
          simp [ih]

theorem shown_unquotePlus : Urllib.unquotePlus (shown s) = shown (unquotePlus s) := by
  have hblank : (shown s).map (fun c => if c == '+' then ' ' else c) =
      shown (s.map fun a => if a == scalar '+' then scalar ' ' else a) := by
    rw [shown, shown, List.map_map, List.map_map]
    refine List.map_congr_left fun a _ => ?_
    cases a with
    | surrogate n => rfl
    | scalar c =>
        by_cases hplus : c = '+'
        · simp [hplus, CodePoint.shown]
        · simp [hplus, CodePoint.shown]
  rw [Urllib.unquotePlus, unquotePlus, hblank, Urllib.unquote, unquote,
    shown_contains (by decide), shown_unquoteRuns]
  split <;> rfl

theorem shown_parseQsl (query : Str) :
    Urllib.parseQsl (shown query) = (parseQsl query).map (Prod.map shown shown) := by
  have hparts : (shown query).splitOn '&' = (query.splitOn (scalar '&')).map shown :=
    Text.splitOn_map (shown_distinct (by decide))
  have hempty : (fun part : Text => !part.isEmpty) ∘ shown = fun part => !part.isEmpty := by
    funext part
    simp
  rw [Urllib.parseQsl, parseQsl, hparts, List.filter_map, hempty, List.map_map, List.map_map]
  refine List.map_congr_left fun part _ => ?_
  rw [Function.comp_apply, Function.comp_apply, shown_partition (by decide)]
  simp [shown_unquotePlus]

theorem ofText_injective : Function.Injective ofText :=
  List.map_injective_iff.mpr fun _ _ h => scalar.inj h

theorem ofText_lt {t t' : Text} : ofText t < ofText t' ↔ t < t' := by
  induction t generalizing t' with
  | nil => cases t' <;> simp [ofText]
  | cons c t ih =>
      cases t' with
      | nil => simp [ofText]
      | cons c' t' =>
          have hhead : scalar c < scalar c' ↔ c < c' := Iff.rfl
          have hsame : scalar c = scalar c' ↔ c = c' := ⟨scalar.inj, congrArg scalar⟩
          have htail := @ih t'
          simp only [ofText, List.map_cons, List.cons_lt_cons_iff] at htail ⊢
          rw [hhead, hsame, htail]

def ofPair : Text × Text → Str × Str := Prod.map ofText ofText

theorem ofPair_le {p q : Text × Text} :
    toLex (ofPair p) ≤ toLex (ofPair q) ↔ toLex p ≤ toLex q := by
  have hle : ofText p.2 ≤ ofText q.2 ↔ p.2 ≤ q.2 := by
    rw [← not_lt, ofText_lt, not_lt]
  rw [Prod.Lex.toLex_le_toLex, Prod.Lex.toLex_le_toLex]
  simp only [ofPair, Prod.map_fst, Prod.map_snd, ofText_lt, ofText_injective.eq_iff, hle]

theorem sortParams_ofPair (params : List (Text × Text)) :
    sortParams (params.map ofPair) = (Urllib.sortParams params).map ofPair :=
  (map_ranked ofPair fun _ _ _ _ => ofPair_le.symm).symm

@[simp] theorem toText_ofText (t : Text) : toText (ofText t) = some t := by
  induction t with
  | nil => rfl
  | cons c t ih =>
      have hrest : toText (t.map scalar) = some t := ih
      simp [ofText, toText, hrest]

theorem ofText_of_toText {t : Text} (h : toText s = some t) : s = ofText t := by
  induction s generalizing t with
  | nil =>
      obtain rfl := Option.some.inj h
      rfl
  | cons a s ih =>
      cases a with
      | surrogate n => cases h
      | scalar c =>
          obtain ⟨rest, hrest, rfl⟩ := Option.map_eq_some_iff.mp h
          rw [ih hrest]
          rfl

theorem pairText_ofPair (q : Text × Text) : pairText (ofPair q) = some q := by
  simp [pairText, ofPair]

theorem ofPair_of_pairText {p : Str × Str} {q : Text × Text} (h : pairText p = some q) :
    p = ofPair q := by
  obtain ⟨name, hname, h⟩ := Option.bind_eq_some_iff.mp h
  obtain ⟨value, hvalue, rfl⟩ := Option.map_eq_some_iff.mp h
  exact Prod.ext (ofText_of_toText hname) (ofText_of_toText hvalue)

theorem mapM_ofPair (params : List (Text × Text)) :
    (params.map ofPair).mapM pairText = some params := by
  induction params with
  | nil => rfl
  | cons q params ih => simp [pairText_ofPair, ih]

theorem mapM_pairText {params : List (Str × Str)} (h : ∃ p ∈ params, pairText p = none) :
    params.mapM pairText = none := by
  induction params with
  | nil => simp at h
  | cons p params ih =>
      cases hp : pairText p with
      | none => simp [hp]
      | some q =>
          have hrest : ∃ p ∈ params, pairText p = none := by simpa [hp] using h
          simp [hp, ih hrest]

theorem urlencode_texts {params : List (Str × Str)} (h : ∀ p ∈ params, (pairText p).isSome) :
    urlencode (sortParams params) =
      .ok (Urllib.urlencode (Urllib.sortParams (params.map (Prod.map shown shown)))) := by
  have hwhole : params = (params.map (Prod.map shown shown)).map ofPair := by
    rw [List.map_map]
    conv_lhs => rw [← List.map_id params]
    refine List.map_congr_left fun p hp => ?_
    obtain ⟨⟨name, value⟩, hq⟩ := Option.isSome_iff_exists.mp (h p hp)
    rw [ofPair_of_pairText hq]
    simp [ofPair]
  conv_lhs => rw [hwhole, sortParams_ofPair, urlencode, mapM_ofPair]

/-- A parameter with a surrogate is not encoded. -/
theorem urlencode_raises {params : List (Str × Str)} (h : ∃ p ∈ params, pairText p = none) :
    urlencode (sortParams params) = .error .valueError := by
  have hsorted : ∃ p ∈ sortParams params, pairText p = none := by
    obtain ⟨p, hp, hnone⟩ := h
    exact ⟨p, mem_ranked.mpr hp, hnone⟩
  rw [urlencode, mapM_pairText hsorted]

theorem shown_urlunsplit (scheme : Text) (netloc path : Str) (query : Text) (fragment : Str) :
    shown (urlunsplit scheme netloc path query fragment) =
      Urllib.urlunsplit scheme (shown netloc) (shown path) query (shown fragment) := by
  have hslash : Text.startsWith ['/'] (shown path) = Text.startsWith [scalar '/'] path :=
    shown_startsWith (by decide)
  rw [urlunsplit, Urllib.urlunsplit, hslash, shown_isEmpty, shown_isEmpty]
  simp only [shown_append, shown_ofText]
  congr 1
  · congr 1
    · congr 1
      split <;> rfl
    · split <;> simp
  · split <;> rfl

end Str

end LeadPipe
