import Mathlib.Data.List.Basic
import Mathlib.Data.List.DropRight

/-!
# Python strings

A `str` without lone surrogates is a list of characters. The methods that read the Unicode character
database are fields of `Unicode`; what they do on ASCII text is part of the structure, and nothing
else about them is assumed. The other methods are defined here.
-/

namespace LeadPipe

abbrev Text := List Char

namespace Text

def isAscii (s : Text) : Bool := s.all fun c => c.toNat < 128

/-- The ASCII characters `str.isspace` and `\s` accept. -/
def asciiSpace (c : Char) : Bool :=
  (9 ≤ c.toNat && c.toNat ≤ 13) || (28 ≤ c.toNat && c.toNat ≤ 32)

/-- `str.title` on ASCII: a letter after a letter is lowered, any other letter raised. -/
def asciiTitle (after : Bool) : Text → Text
  | [] => []
  | c :: cs => (if after then c.toLower else c.toUpper) :: asciiTitle c.isAlpha cs

end Text

structure Unicode where
  isSpace : Char → Bool
  isAlpha : Text → Bool
  isUpper : Text → Bool
  isLower : Text → Bool
  lower : Text → Text
  upper : Text → Text
  title : Text → Text
  casefold : Text → Text
  nfkc : Text → Text
  isSpace_ascii : ∀ c, c.toNat < 128 → isSpace c = Text.asciiSpace c
  isAlpha_ascii : ∀ s, s.isAscii → isAlpha s = (!s.isEmpty && s.all Char.isAlpha)
  isUpper_ascii : ∀ s, s.isAscii → isUpper s = (s.any Char.isUpper && !s.any Char.isLower)
  isLower_ascii : ∀ s, s.isAscii → isLower s = (s.any Char.isLower && !s.any Char.isUpper)
  lower_ascii : ∀ s, s.isAscii → lower s = s.map Char.toLower
  upper_ascii : ∀ s, s.isAscii → upper s = s.map Char.toUpper
  title_ascii : ∀ s, s.isAscii → title s = Text.asciiTitle false s
  casefold_ascii : ∀ s, s.isAscii → casefold s = s.map Char.toLower
  nfkc_ascii : ∀ s, s.isAscii → nfkc s = s

/-- A database in which no character beyond ASCII has any property. -/
def Unicode.ascii : Unicode where
  isSpace := Text.asciiSpace
  isAlpha s := !s.isEmpty && s.all Char.isAlpha
  isUpper s := s.any Char.isUpper && !s.any Char.isLower
  isLower s := s.any Char.isLower && !s.any Char.isUpper
  lower := List.map Char.toLower
  upper := List.map Char.toUpper
  title := Text.asciiTitle false
  casefold := List.map Char.toLower
  nfkc := id
  isSpace_ascii _ _ := rfl
  isAlpha_ascii _ _ := rfl
  isUpper_ascii _ _ := rfl
  isLower_ascii _ _ := rfl
  lower_ascii _ _ := rfl
  upper_ascii _ _ := rfl
  title_ascii _ _ := rfl
  casefold_ascii _ _ := rfl
  nfkc_ascii _ _ := rfl

namespace Text

theorem forall_of_all {p : Char → Prop} [DecidablePred p] {s : Text}
    (h : s.all (fun c => decide (p c)) = true) : ∀ c ∈ s, p c := by
  simpa using h

/-- `s or None`: the empty string is falsy. -/
def orNone {α : Type} (s : List α) : Option (List α) := if s.isEmpty then none else some s

theorem orNone_eq_some {s t : Text} : orNone s = some t ↔ s = t ∧ t ≠ [] := by
  unfold orNone
  constructor
  · intro h
    split at h
    · cases h
    · rename_i hne
      obtain rfl := Option.some.inj h
      exact ⟨rfl, by simpa using hne⟩
  · rintro ⟨rfl, hne⟩
    exact if_neg (by simpa using hne)

/-- `if value:` on an optional string. -/
def truthy : Option Text → Bool
  | none => false
  | some s => !s.isEmpty

/-- `value or default`: `None` and the empty string are falsy. -/
def orElse (value : Option Text) (default : Text) : Text :=
  match value with
  | some s => if s.isEmpty then default else s
  | none => default

section Alphabet

-- These methods read no database: they are the same on any alphabet.
variable {α : Type}

def lstrip (p : α → Bool) (s : List α) : List α := s.dropWhile p

def rstrip (p : α → Bool) (s : List α) : List α := s.rdropWhile p

def strip (p : α → Bool) (s : List α) : List α := rstrip p (lstrip p s)

variable [DecidableEq α]

def startsWith (pre s : List α) : Bool := pre.isPrefixOf s

def removePrefix (pre s : List α) : List α := if startsWith pre s then s.drop pre.length else s

def containsSub (sub s : List α) : Bool := s.tails.any fun t => startsWith sub t

/-- `s.partition(sep)` for a separator of one character. -/
def partition (sep : α) (s : List α) : List α × Bool × List α :=
  match s.dropWhile (· != sep) with
  | [] => (s, false, [])
  | _ :: after => (s.takeWhile (· != sep), true, after)

/-- `s.rpartition(sep)` for a separator of one character. -/
def rpartition (sep : α) (s : List α) : List α × Bool × List α :=
  match partition sep s.reverse with
  | (_, false, _) => ([], false, s)
  | (after, true, before) => (before.reverse, true, after.reverse)

end Alphabet

def join (sep : Text) (parts : List Text) : Text := (parts.intersperse sep).flatten

/-- Decimal digits, as `str` prints a nonnegative integer. -/
def ofNat (n : Nat) : Text := Nat.toDigits 10 n

def isDigit (s : Text) : Bool := !s.isEmpty && s.all Char.isDigit

/-- Left padding with zeros; the callers pass digits only, so there is no sign to skip. -/
def zfill (width : Nat) (s : Text) : Text := List.replicate (width - s.length) '0' ++ s

def toNat (s : Text) : Nat := s.foldl (fun n c => 10 * n + (c.toNat - '0'.toNat)) 0

def ofInt (n : Int) : Text := if n < 0 then '-' :: ofNat n.natAbs else ofNat n.natAbs

/-- The digits of an `int` literal, last first; underscores may stand between them. -/
def intDigits (decimal : Char → Option Nat) : Bool → List Nat → Text → Option (List Nat)
  | afterDigit, digits, [] => if afterDigit then some digits else none
  | afterDigit, digits, c :: cs =>
      match decimal c with
      | some d => intDigits decimal true (d :: digits) cs
      | none => if c == '_' && afterDigit then intDigits decimal false digits cs else none

/-- `int(s)`; `none` is its `ValueError`. `decimal` reads the digits of the Unicode database. -/
def int (space : Char → Bool) (decimal : Char → Option Nat) (s : Text) : Option Int :=
  let (negative, digits) :=
    match strip space s with
    | '-' :: rest => (true, rest)
    | '+' :: rest => (false, rest)
    | rest => (false, rest)
  (intDigits decimal false [] digits).bind fun digits =>
    if digits.length ≤ 4300 then
      let value : Int := digits.foldr (fun d n => 10 * n + d) 0
      some (if negative then -value else value)
    else none

def isLineBreak (c : Char) : Bool :=
  c == '\n' || c == '\r' || c.toNat == 11 || c.toNat == 12 || (28 ≤ c.toNat && c.toNat ≤ 30) ||
    c.toNat == 0x85 || c.toNat == 0x2028 || c.toNat == 0x2029

/-- `str.splitlines`, with the line read so far. -/
def splitlines : Text → Text → List Text
  | line, [] => if line.isEmpty then [] else [line.reverse]
  | line, '\r' :: '\n' :: rest => line.reverse :: splitlines [] rest
  | line, c :: rest =>
      if isLineBreak c then line.reverse :: splitlines [] rest else splitlines (c :: line) rest

end Text

/-- A `dict` with string keys, in insertion order. -/
abbrev Dict (α : Type) := List (Text × α)

namespace Dict

variable {α : Type}

def get (d : Dict α) (k : Text) : Option α := (d.find? fun p => p.1 == k).map Prod.snd

/-- `d[k] = v`: a key that is there keeps its place. -/
def set (d : Dict α) (k : Text) (v : α) : Dict α :=
  if d.any fun p => p.1 == k then d.map fun p => if p.1 == k then (k, v) else p
  else d ++ [(k, v)]

def update (d e : Dict α) : Dict α := e.foldl (fun d p => set d p.1 p.2) d

end Dict

end LeadPipe
