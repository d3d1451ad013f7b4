import Mathlib.Data.Char
import Mathlib.Data.List.Lex
import LeadPipe.Framework.Ranking
import LeadPipe.Python.Text

/-!
# `urllib.parse`

The functions of `urllib.parse` the program calls, after the standard library's own code.
`ValueError` is `none`. `ipaddress.ip_address` is a parameter that says which bracketed hosts
are IPv6 addresses.
-/

namespace LeadPipe.Urllib

open Framework

structure SplitResult where
  scheme : Text
  netloc : Text
  path : Text
  query : Text
  fragment : Text
  deriving DecidableEq, Repr

def isC0OrSpace (c : Char) : Bool := c.toNat ≤ 32

def isUnsafeByte (c : Char) : Bool := c == '\t' || c == '\r' || c == '\n'

def isSchemeChar (c : Char) : Bool := c.isAlphanum || c == '+' || c == '-' || c == '.'

def isHex (c : Char) : Bool :=
  c.isDigit || ('a' ≤ c && c ≤ 'f') || ('A' ≤ c && c ≤ 'F')

def splitScheme (url : Text) : Text × Text :=
  match Text.partition ':' url with
  | (scheme, true, rest) =>
      match scheme with
      | c :: _ => if c.isAlpha && scheme.all isSchemeChar then (scheme.map Char.toLower, rest)
          else ([], url)
      | [] => ([], url)
  | _ => ([], url)

def isDelimiter (c : Char) : Bool := c == '/' || c == '?' || c == '#'

/-- `_checknetloc`: characters that normalise to a delimiter are refused. -/
def checkNetloc (uc : Unicode) (netloc : Text) : Bool :=
  if netloc.isEmpty || netloc.isAscii then true
  else
    let n := netloc.filter fun c => !(c == '@' || c == ':' || c == '#' || c == '?')
    let n' := uc.nfkc n
    n == n' || !n'.any fun c => c == '/' || c == '?' || c == '#' || c == '@' || c == ':'

def isIPvFuture (host : Text) : Bool :=
  match Text.partition '.' (host.drop 1) with
  | (version, true, rest) => !version.isEmpty && version.all isHex && !rest.isEmpty
  | _ => false

def checkBracketedHost (isIPv6 : Text → Bool) (host : Text) : Bool :=
  if Text.startsWith ['v'] host then isIPvFuture host else isIPv6 host

def checkBracketedNetloc (isIPv6 : Text → Bool) (netloc : Text) : Bool :=
  let hostinfo := (Text.rpartition '@' netloc).2.2
  match Text.partition '[' hostinfo with
  | (before, true, bracketed) =>
      let (host, _, port) := Text.partition ']' bracketed
      before.isEmpty && (port.isEmpty || Text.startsWith [':'] port) &&
        checkBracketedHost isIPv6 host
  | (_, false, _) => checkBracketedHost isIPv6 (Text.partition ':' hostinfo).1

def urlsplit (uc : Unicode) (isIPv6 : Text → Bool) (url : Text) : Option SplitResult :=
  let url := (Text.lstrip isC0OrSpace url).filter fun c => !isUnsafeByte c
  let (scheme, url) := splitScheme url
  let (netloc, url) :=
    if Text.startsWith ['/', '/'] url then
      ((url.drop 2).takeWhile fun c => !isDelimiter c,
        (url.drop 2).dropWhile fun c => !isDelimiter c)
    else ([], url)
  let opened := netloc.contains '['
  let closed := netloc.contains ']'
  if opened != closed then none
  else if opened && closed && !checkBracketedNetloc isIPv6 netloc then none
  else
    let (url, _, fragment) := Text.partition '#' url
    let (path, _, query) := Text.partition '?' url
    if checkNetloc uc netloc then some ⟨scheme, netloc, path, query, fragment⟩ else none

namespace SplitResult

/-- `_hostinfo`: the host as written and the port text, if any. -/
def hostinfo (r : SplitResult) : Text × Option Text :=
  let hostinfo := (Text.rpartition '@' r.netloc).2.2
  match Text.partition '[' hostinfo with
  | (_, true, bracketed) =>
      let (host, _, rest) := Text.partition ']' bracketed
      (host, Text.orNone (Text.partition ':' rest).2.2)
  | (_, false, _) =>
      let (host, _, port) := Text.partition ':' hostinfo
      (host, Text.orNone port)

/-- The `hostname` property; an IPv6 zone keeps its case. -/
def hostname (uc : Unicode) (r : SplitResult) : Option Text :=
  let host := r.hostinfo.1
  if host.isEmpty then none
  else
    let (name, percent, zone) := Text.partition '%' host
    some (uc.lower name ++ (if percent then ['%'] else []) ++ zone)

def maxIntDigits : Nat := 4300

/-- The `port` property; `none` is the `ValueError` of a port that is not a number in range. -/
def port (r : SplitResult) : Option (Option Nat) :=
  match r.hostinfo.2 with
  | none => some none
  | some p =>
      if p.isDigit && p.length ≤ maxIntDigits && p.toNat ≤ 65535 then some (some p.toNat)
      else none

end SplitResult

/-- `urlunsplit` for a nonempty scheme and authority. -/
def urlunsplit (scheme netloc path query fragment : Text) : Text :=
  let path := if !path.isEmpty && !Text.startsWith ['/'] path then '/' :: path else path
  scheme ++ [':', '/', '/'] ++ netloc ++ path ++
    (if query.isEmpty then [] else '?' :: query) ++
    (if fragment.isEmpty then [] else '#' :: fragment)

def hexValue (c : Char) : Nat :=
  if c.isDigit then c.toNat - '0'.toNat
  else if 'a' ≤ c then c.toNat - 'a'.toNat + 10
  else c.toNat - 'A'.toNat + 10

/-- `unquote_to_bytes`: the bytes of a text, with `%XX` decoded. -/
def unquoteToBytes : Text → List Nat
  | '%' :: a :: b :: rest =>
      if isHex a && isHex b then (16 * hexValue a + hexValue b) :: unquoteToBytes rest
      else 37 :: unquoteToBytes (a :: b :: rest)
  | c :: rest => (String.utf8EncodeChar c).map UInt8.toNat ++ unquoteToBytes rest
  | [] => []

/-- How many continuation bytes a lead byte asks for, and the range of the first. -/
def utf8Lead (b : Nat) : Option (Nat × Nat × Nat) :=
  if 0xC2 ≤ b && b ≤ 0xDF then some (1, 0x80, 0xBF)
  else if b == 0xE0 then some (2, 0xA0, 0xBF)
  else if b == 0xED then some (2, 0x80, 0x9F)
  else if 0xE1 ≤ b && b ≤ 0xEF then some (2, 0x80, 0xBF)
  else if b == 0xF0 then some (3, 0x90, 0xBF)
  else if 0xF1 ≤ b && b ≤ 0xF3 then some (3, 0x80, 0xBF)
  else if b == 0xF4 then some (3, 0x80, 0x8F)
  else none

/-- The valid continuation bytes at the head of `bytes`, at most `n`, and what is left. -/
def utf8Tail : Nat → Nat → Nat → List Nat → List Nat × List Nat
  | n + 1, lo, hi, b :: bytes =>
      if lo ≤ b && b ≤ hi then
        let (tail, rest) := utf8Tail n 0x80 0xBF bytes
        (b :: tail, rest)
      else ([], b :: bytes)
  | _, _, _, bytes => ([], bytes)

/-- `bytes.decode("utf-8", "replace")`: every maximal invalid part becomes one U+FFFD. The
first argument bounds the number of characters. -/
def decodeUtf8 : Nat → List Nat → Text
  | fuel + 1, b :: bytes =>
      if b < 0x80 then Char.ofNat b :: decodeUtf8 fuel bytes
      else
        match utf8Lead b with
        | none => '\uFFFD' :: decodeUtf8 fuel bytes
        | some (n, lo, hi) =>
            let (tail, rest) := utf8Tail n lo hi bytes
            let mask := if n == 1 then 0x1F else if n == 2 then 0x0F else 0x07
            if tail.length == n then
              Char.ofNat (tail.foldl (fun v t => 64 * v + (t - 0x80)) (b &&& mask)) ::
                decodeUtf8 fuel rest
            else '\uFFFD' :: decodeUtf8 fuel rest
  | _, _ => []

def decodeRun (run : Text) : Text :=
  let bytes := unquoteToBytes run
  decodeUtf8 bytes.length bytes

def unquoteRuns : Text → Text → Text
  | run, [] => decodeRun run.reverse
  | run, c :: cs =>
      if c.toNat < 128 then unquoteRuns (c :: run) cs
      else decodeRun run.reverse ++ c :: unquoteRuns [] cs

def unquote (s : Text) : Text := if s.contains '%' then unquoteRuns [] s else s

def unquotePlus (s : Text) : Text :=
  unquote (s.map fun c => if c == '+' then ' ' else c)

def parseQsl (query : Text) : List (Text × Text) :=
  ((query.splitOn '&').filter fun part => !part.isEmpty).map fun part =>
    let (name, _, value) := Text.partition '=' part
    (unquotePlus name, unquotePlus value)

def isAlwaysSafe (c : Char) : Bool :=
  c.isAlphanum || c == '_' || c == '.' || c == '-' || c == '~'

def upperHexDigit (n : Nat) : Char := Char.ofNat (if n < 10 then 48 + n else 55 + n)

def percent (b : UInt8) : Text :=
  ['%', upperHexDigit (b.toNat / 16), upperHexDigit (b.toNat % 16)]

def quotePlus (s : Text) : Text :=
  s.flatMap fun c =>
    if isAlwaysSafe c then [c]
    else if c == ' ' then ['+']
    else (String.utf8EncodeChar c).flatMap percent

def urlencode (params : List (Text × Text)) : Text :=
  Text.join ['&'] (params.map fun p => quotePlus p.1 ++ ['='] ++ quotePlus p.2)

def sortParams (params : List (Text × Text)) : List (Text × Text) :=
  ranked (fun p => toLex p) params

end LeadPipe.Urllib
