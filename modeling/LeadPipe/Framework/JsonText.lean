import Mathlib.Data.List.Basic
import Mathlib.Data.List.Nodup
import Mathlib.Data.List.TakeWhile

/-!
# JSON as text

A writer as `json.dumps` with `ensure_ascii=False`, and a reader as `json.loads`. The reader takes
the characters that a number may consist of and then looks whether they are one; as none of them may
stand behind a number, this refuses what the grammar refuses. It is written by a bound on the depth
of the recursion, which the length of the text is enough for.

What is written is read back, also with other white space between the items of a list.
-/

namespace LeadPipe.Framework.JsonText

def isNumberChar (c : Char) : Bool :=
  c.isDigit || c == '-' || c == '+' || c == '.' || c == 'e' || c == 'E'

def isDigits (s : List Char) : Bool := !s.isEmpty && s.all Char.isDigit

def isInteger : List Char → Bool
  | ['0'] => true
  | c :: s => c != '0' && isDigits (c :: s)
  | [] => false

def isExponent : List Char → Bool
  | '+' :: s | '-' :: s => isDigits s
  | s => isDigits s

def isFraction (s : List Char) : Bool :=
  let inMantissa (c : Char) : Bool := !(c == 'e' || c == 'E')
  (match s.takeWhile inMantissa with
    | [] => true
    | '.' :: digits => isDigits digits
    | _ => false) &&
  (match s.dropWhile inMantissa with
    | [] => true
    | _ :: exponent => isExponent exponent)

def isNumber (s : List Char) : Bool :=
  let s := if s.head? = some '-' then s.tail else s
  isInteger (s.takeWhile Char.isDigit) && isFraction (s.dropWhile Char.isDigit)

structure Numeral where
  text : List Char
  chars : text.all isNumberChar = true
  valid : isNumber text = true
  deriving DecidableEq

def numeral? (text : List Char) : Option Numeral :=
  if h : text.all isNumberChar = true ∧ isNumber text = true then some ⟨text, h.1, h.2⟩ else none

theorem toDigits_head {n : Nat} (hn : 0 < n) :
    ∃ c s, Nat.toDigits 10 n = c :: s ∧ c ≠ '0' := by
  induction n using Nat.strongRecOn with
  | _ n ih =>
      by_cases hsmall : n < 10
      · rw [Nat.toDigits_of_lt_base hsmall]
        refine ⟨n.digitChar, [], rfl, ?_⟩
        have hall : ∀ n < 10, 0 < n → n.digitChar ≠ '0' := by decide
        exact hall n hsmall hn
      · rw [Nat.toDigits_of_base_le (by decide) (Nat.le_of_not_lt hsmall)]
        obtain ⟨c, s, hdigits, hc⟩ := ih (n / 10) (by omega) (by omega)
        rw [hdigits]
        exact ⟨c, _, rfl, hc⟩

def Numeral.ofNat (n : Nat) : Numeral where
  text := Nat.toDigits 10 n
  chars := by
    rw [List.all_eq_true]
    intro c hc
    simp [isNumberChar, Nat.isDigit_of_mem_toDigits (by decide) (by decide) hc]
  valid := by
    have hall : ∀ c ∈ Nat.toDigits 10 n, c.isDigit = true := fun c hc =>
      Nat.isDigit_of_mem_toDigits (by decide) (by decide) hc
    have hsign : (Nat.toDigits 10 n).head? ≠ some '-' := by
      intro h
      have hdigit := hall '-' (List.mem_of_head? h)
      exact absurd hdigit (by decide)
    rw [isNumber, if_neg hsign, List.takeWhile_eq_self_iff.mpr hall,
      List.dropWhile_eq_nil_iff.mpr hall, Bool.and_eq_true]
    refine ⟨?_, rfl⟩
    rcases Nat.eq_zero_or_pos n with rfl | hn
    · rfl
    · obtain ⟨c, s, hdigits, hc⟩ := toDigits_head hn
      have hdigits' : isDigits (c :: s) = true := by
        rw [isDigits, ← hdigits, Bool.and_eq_true]
        exact ⟨by simp, List.all_eq_true.mpr hall⟩
      rw [hdigits, isInteger]
      · simp [hc, hdigits']
      · rintro ⟨⟩ -
        exact hc rfl

inductive Constant where
  | nan
  | infinity
  | negInfinity
  deriving DecidableEq

inductive Value where
  | null
  | bool (value : Bool)
  | number (value : Numeral)
  | constant (value : Constant)
  | str (text : List Char)
  | arr (items : List Value)
  | obj (members : List (List Char × Value))

/-- A later value of a key takes the place of the earlier one. -/
def dictOf (members : List (List Char × Value)) : List (List Char × Value) :=
  members.foldl (fun d p =>
    if d.any fun q => q.1 == p.1 then d.map fun q => if q.1 == p.1 then p else q else d ++ [p]) []

def hexDigit (n : Nat) : Char := if n < 10 then Char.ofNat (48 + n) else Char.ofNat (87 + n)

def escape (c : Char) : List Char :=
  if c = '"' then ['\\', '"']
  else if c = '\\' then ['\\', '\\']
  else if c = '\n' then ['\\', 'n']
  else if c = '\r' then ['\\', 'r']
  else if c = '\t' then ['\\', 't']
  else if c = '\x0c' then ['\\', 'f']
  else if c = '\x08' then ['\\', 'b']
  else if c.toNat < 32 then ['\\', 'u', '0', '0', hexDigit (c.toNat / 16), hexDigit (c.toNat % 16)]
  else [c]

def quoted (text : List Char) : List Char := '"' :: text.flatMap escape ++ ['"']

def Constant.text : Constant → List Char
  | nan => "NaN".toList
  | infinity => "Infinity".toList
  | negInfinity => "-Infinity".toList

mutual

def dumps : Value → List Char
  | .null => "null".toList
  | .bool true => "true".toList
  | .bool false => "false".toList
  | .number n => n.text
  | .constant k => k.text
  | .str s => quoted s
  | .arr items => '[' :: dumpsItems [' '] items ++ [']']
  | .obj members => '{' :: dumpsMembers members ++ ['}']

def dumpsItems (space : List Char) : List Value → List Char
  | [] => []
  | [v] => dumps v
  | v :: items => dumps v ++ ',' :: space ++ dumpsItems space items

def dumpsMembers : List (List Char × Value) → List Char
  | [] => []
  | [(key, v)] => quoted key ++ ':' :: ' ' :: dumps v
  | (key, v) :: members => quoted key ++ ':' :: ' ' :: dumps v ++ ',' :: ' ' :: dumpsMembers members

end

def isSpace (c : Char) : Bool := c == ' ' || c == '\t' || c == '\n' || c == '\r'

def skip (s : List Char) : List Char := s.dropWhile isSpace

def hexValue (c : Char) : Option Nat :=
  if c.isDigit then some (c.toNat - 48)
  else if 'a' ≤ c ∧ c ≤ 'f' then some (c.toNat - 87)
  else if 'A' ≤ c ∧ c ≤ 'F' then some (c.toNat - 55)
  else none

def hex4 (a b c d : Char) : Option Nat := do
  return 4096 * (← hexValue a) + 256 * (← hexValue b) + 16 * (← hexValue c) + (← hexValue d)

def unescape (c : Char) : Option Char :=
  if c = '"' ∨ c = '\\' ∨ c = '/' then some c
  else if c = 'n' then some '\n'
  else if c = 'r' then some '\r'
  else if c = 't' then some '\t'
  else if c = 'f' then some '\x0c'
  else if c = 'b' then some '\x08'
  else none

/-- The character of a surrogate pair. -/
def paired (high low : Nat) : Option Char :=
  if 0xD800 ≤ high ∧ high < 0xDC00 ∧ 0xDC00 ≤ low ∧ low < 0xE000 then
    some (Char.ofNat (0x10000 + 1024 * (high - 0xD800) + (low - 0xDC00)))
  else none

/-- The rest of a string, and the text behind it. A surrogate alone is no character. -/
def readString : List Char → Option (List Char × List Char)
  | [] => none
  | '"' :: rest => some ([], rest)
  | '\\' :: 'u' :: a :: b :: c :: d :: rest =>
      (hex4 a b c d).bind fun n =>
        if 0xD800 ≤ n ∧ n < 0xE000 then
          match rest with
          | '\\' :: 'u' :: a' :: b' :: c' :: d' :: rest' =>
              (hex4 a' b' c' d').bind fun n' => (paired n n').bind fun c =>
                (readString rest').map fun p => (c :: p.1, p.2)
          | _ => none
        else (readString rest).map fun p => (Char.ofNat n :: p.1, p.2)
  | '\\' :: c :: rest =>
      (unescape c).bind fun c => (readString rest).map fun p => (c :: p.1, p.2)
  | c :: rest =>
      if c.toNat < 32 then none else (readString rest).map fun p => (c :: p.1, p.2)

def keywords : List (List Char × Value) :=
  [("null".toList, .null), ("true".toList, .bool true), ("false".toList, .bool false),
    ("NaN".toList, .constant .nan), ("Infinity".toList, .constant .infinity),
    ("-Infinity".toList, .constant .negInfinity)]

def readScalar (s : List Char) : Option (Value × List Char) :=
  match numeral? (s.takeWhile isNumberChar) with
  | some n => some (.number n, s.dropWhile isNumberChar)
  | none => (keywords.find? fun p => p.1.isPrefixOf s).map fun p => (p.2, s.drop p.1.length)

mutual

def readValue : Nat → List Char → Option (Value × List Char)
  | 0, _ => none
  | _ + 1, '"' :: rest => (readString rest).map fun p => (.str p.1, p.2)
  | fuel + 1, '[' :: rest =>
      match skip rest with
      | ']' :: rest => some (.arr [], rest)
      | rest => (readItems fuel rest).map fun p => (.arr p.1, p.2)
  | fuel + 1, '{' :: rest =>
      match skip rest with
      | '}' :: rest => some (.obj [], rest)
      | rest => (readMembers fuel rest).map fun p => (.obj (dictOf p.1), p.2)
  | _ + 1, s => readScalar s

def readItems : Nat → List Char → Option (List Value × List Char)
  | 0, _ => none
  | fuel + 1, s =>
      (readValue fuel s).bind fun p =>
        match skip p.2 with
        | ',' :: rest => (readItems fuel (skip rest)).map fun q => (p.1 :: q.1, q.2)
        | ']' :: rest => some ([p.1], rest)
        | _ => none

def readMembers : Nat → List Char → Option (List (List Char × Value) × List Char)
  | 0, _ => none
  | fuel + 1, '"' :: s =>
      (readString s).bind fun key =>
        match skip key.2 with
        | ':' :: rest =>
            (readValue fuel (skip rest)).bind fun p =>
              match skip p.2 with
              | ',' :: rest => (readMembers fuel (skip rest)).map fun q => ((key.1, p.1) :: q.1, q.2)
              | '}' :: rest => some ([(key.1, p.1)], rest)
              | _ => none
        | _ => none
  | _ + 1, _ => none

end

/-- `none` is a `JSONDecodeError`. -/
def loads (text : List Char) : Option Value :=
  (readValue (text.length + 1) (skip text)).bind fun p =>
    if skip p.2 = [] then some p.1 else none

theorem hexValue_hexDigit {n : Nat} (h : n < 16) : hexValue (hexDigit n) = some n := by
  have hall : ∀ n < 16, hexValue (hexDigit n) = some n := by decide
  exact hall n h

theorem readString_escape (c : Char) (rest : List Char) :
    readString (escape c ++ rest) = (readString rest).map fun p => (c :: p.1, p.2) := by
  unfold escape
  split
  · subst_vars
    rfl
  split
  · subst_vars
    rfl
  split
  · subst_vars
    rfl
  split
  · subst_vars
    rfl
  split
  · subst_vars
    rfl
  split
  · subst_vars
    rfl
  split
  · subst_vars
    rfl
  split
  · rename_i hcontrol
    have hhigh := hexValue_hexDigit (show c.toNat / 16 < 16 by omega)
    have hlow := hexValue_hexDigit (Nat.mod_lt c.toNat (show 0 < 16 by omega))
    have hzero : hexValue '0' = some 0 := rfl
    have hcode : hex4 '0' '0' (hexDigit (c.toNat / 16)) (hexDigit (c.toNat % 16)) =
        some c.toNat := by
      simp only [hex4, hhigh, hlow, hzero, Option.bind_eq_bind, Option.bind_some, Option.pure_def]
      congr 1
      omega
    have hplain : ¬(0xD800 ≤ c.toNat ∧ c.toNat < 0xE000) := by omega
    simp only [List.cons_append, List.nil_append, readString, hcode, Option.bind_some, hplain,
      if_false, Char.ofNat_toNat]
  · rename_i hquote hbackslash _ _ _ _ _ hcontrol
    rw [List.singleton_append, readString, if_neg hcontrol]
    · exact hquote
    · intro _ _ _ _ _ h _
      exact hbackslash h
    · intro _ _ h _
      exact hbackslash h

theorem readString_quoted (text rest : List Char) :
    readString (text.flatMap escape ++ '"' :: rest) = some (text, rest) := by
  induction text with
  | nil => rfl
  | cons c text ih =>
      rw [List.flatMap_cons, List.append_assoc, readString_escape, ih]
      rfl

/-- Nothing here goes on with a number. -/
def Ends (rest : List Char) : Prop := ∀ c, rest.head? = some c → isNumberChar c = false

theorem ends_cons {c : Char} (h : isNumberChar c = false) (rest : List Char) : Ends (c :: rest) := by
  intro c' hc
  obtain rfl := Option.some.inj hc
  exact h

theorem takeWhile_text (n : Numeral) {rest : List Char} (hrest : Ends rest) :
    (n.text ++ rest).takeWhile isNumberChar = n.text ∧
      (n.text ++ rest).dropWhile isNumberChar = rest := by
  have hall : ∀ c ∈ n.text, isNumberChar c = true := List.all_eq_true.mp n.chars
  have hnone : rest.takeWhile isNumberChar = [] ∧ rest.dropWhile isNumberChar = rest := by
    cases rest with
    | nil => exact ⟨rfl, rfl⟩
    | cons c rest =>
        have hc := hrest c rfl
        simp [hc]
  rw [List.takeWhile_append_of_pos hall, List.dropWhile_append_of_pos hall, hnone.1, hnone.2,
    List.append_nil]
  exact ⟨rfl, rfl⟩

theorem numeral?_text (n : Numeral) : numeral? n.text = some n := dif_pos ⟨n.chars, n.valid⟩

theorem readScalar_number (n : Numeral) {rest : List Char} (hrest : Ends rest) :
    readScalar (n.text ++ rest) = some (.number n, rest) := by
  obtain ⟨htake, hdrop⟩ := takeWhile_text n hrest
  rw [readScalar, htake, hdrop, numeral?_text]

/-- A number does not begin like another kind of value. -/
theorem numeral_head (n : Numeral) :
    ∃ c rest, n.text = c :: rest ∧ c ≠ '"' ∧ c ≠ '[' ∧ c ≠ '{' ∧ isSpace c = false := by
  have hvalid := n.valid
  have hchars := n.chars
  cases htext : n.text with
  | nil =>
      rw [htext] at hvalid
      cases hvalid
  | cons c rest =>
      rw [htext, List.all_cons, Bool.and_eq_true] at hchars
      have hall : ∀ c ∈ ['"', '[', '{', ' ', '\t', '\n', '\r'], isNumberChar c = false := by
        simp only [List.forall_mem_cons]
        exact ⟨rfl, rfl, rfl, rfl, rfl, rfl, rfl, nofun⟩
      have hne (c' : Char) (hc' : c' ∈ ['"', '[', '{', ' ', '\t', '\n', '\r']) : c ≠ c' := by
        rintro rfl
        rw [hall c hc'] at hchars
        cases hchars.1
      refine ⟨c, rest, rfl, hne _ (by simp), hne _ (by simp), hne _ (by simp), ?_⟩
      simp [isSpace, hne ' ' (by simp), hne '\t' (by simp), hne '\n' (by simp),
        hne '\r' (by simp)]

/-- Every object has every key once. -/
inductive Keyed : Value → Prop
  | null : Keyed .null
  | bool (b : Bool) : Keyed (.bool b)
  | number (n : Numeral) : Keyed (.number n)
  | constant (k : Constant) : Keyed (.constant k)
  | str (s : List Char) : Keyed (.str s)
  | arr {items : List Value} : (∀ v ∈ items, Keyed v) → Keyed (.arr items)
  | obj {members : List (List Char × Value)} : (members.map Prod.fst).Nodup →
      (∀ p ∈ members, Keyed p.2) → Keyed (.obj members)

theorem dictOf_nodup {members : List (List Char × Value)} (h : (members.map Prod.fst).Nodup) :
    dictOf members = members := by
  suffices hfold : ∀ (rest d : List (List Char × Value)), ((d ++ rest).map Prod.fst).Nodup →
      rest.foldl (fun d p => if d.any fun q => q.1 == p.1 then
        d.map fun q => if q.1 == p.1 then p else q else d ++ [p]) d = d ++ rest from
    hfold members [] h
  intro rest
  induction rest with
  | nil => exact fun d _ => (List.append_nil d).symm
  | cons p rest ih =>
      intro d hd
      have hnew : (d.any fun q => q.1 == p.1) = false := by
        rw [List.any_eq_false]
        intro q hq heq
        rw [List.map_append, List.map_cons] at hd
        have hapart := (List.nodup_append.mp hd).2.2
        exact hapart q.1 (List.mem_map_of_mem hq) p.1 List.mem_cons_self (eq_of_beq heq)
      have hgrown : d ++ p :: rest = (d ++ [p]) ++ rest := by simp
      rw [List.foldl_cons, hnew, if_neg Bool.false_ne_true, hgrown]
      exact ih (d ++ [p]) (hgrown ▸ hd)

mutual

def need : Value → Nat
  | .arr items => 1 + needItems items
  | .obj members => 1 + needMembers members
  | _ => 1

def needItems : List Value → Nat
  | [] => 0
  | v :: items => 1 + need v + needItems items

def needMembers : List (List Char × Value) → Nat
  | [] => 0
  | (_, v) :: members => 1 + need v + needMembers members

end

theorem dumps_head (v : Value) :
    ∃ c rest, dumps v = c :: rest ∧ isSpace c = false ∧ c ≠ ']' := by
  cases v with
  | null => exact ⟨'n', _, rfl, rfl, by decide⟩
  | bool b =>
      cases b with
      | false => exact ⟨'f', _, rfl, rfl, by decide⟩
      | true => exact ⟨'t', _, rfl, rfl, by decide⟩
  | number n =>
      obtain ⟨c, rest, htext, -, -, -, hspace⟩ := numeral_head n
      refine ⟨c, rest, htext, hspace, ?_⟩
      rintro rfl
      have hchars := n.chars
      rw [htext] at hchars
      cases hchars
  | constant k =>
      cases k with
      | nan => exact ⟨'N', _, rfl, rfl, by decide⟩
      | infinity => exact ⟨'I', _, rfl, rfl, by decide⟩
      | negInfinity => exact ⟨'-', _, rfl, rfl, by decide⟩
  | str s => exact ⟨'"', _, rfl, rfl, by decide⟩
  | arr items => exact ⟨'[', _, rfl, rfl, by decide⟩
  | obj members => exact ⟨'{', _, rfl, rfl, by decide⟩

section Space

variable {space rest : List Char} (hspace : ∀ c ∈ space, isSpace c = true)

include hspace

theorem skip_space (rest : List Char) : skip (space ++ rest) = skip rest :=
  List.dropWhile_append_of_pos hspace

theorem ends_space (hrest : Ends rest) : Ends (space ++ rest) := by
  cases space with
  | nil => exact hrest
  | cons c space =>
      refine ends_cons ?_ _
      have hc := hspace c List.mem_cons_self
      simp only [isSpace, Bool.or_eq_true, beq_iff_eq] at hc
      rcases hc with ((rfl | rfl) | rfl) | rfl <;> decide

end Space

theorem skip_cons {c : Char} (h : isSpace c = false) (rest : List Char) :
    skip (c :: rest) = c :: rest := by
  rw [skip, List.dropWhile_cons_of_neg]
  rw [h]
  exact Bool.false_ne_true

theorem skip_dumps (v : Value) (rest : List Char) : skip (dumps v ++ rest) = dumps v ++ rest := by
  obtain ⟨c, tail, hdumps, hspace, -⟩ := dumps_head v
  rw [hdumps, List.cons_append, skip_cons hspace]

theorem readValue_str (fuel : Nat) (s rest : List Char) :
    readValue (fuel + 1) (quoted s ++ rest) = some (.str s, rest) := by
  have hquoted : quoted s ++ rest = '"' :: (s.flatMap escape ++ '"' :: rest) := by
    simp [quoted]
  rw [hquoted, readValue, readString_quoted]
  rfl

theorem readValue_scalar {fuel : Nat} {c : Char} {s : List Char} (hquote : c ≠ '"')
    (hlist : c ≠ '[') (hobject : c ≠ '{') :
    readValue (fuel + 1) (c :: s) = readScalar (c :: s) := by
  rw [readValue]
  · rintro _ ⟨⟩
    exact hquote rfl
  · rintro _ ⟨⟩
    exact hlist rfl
  · rintro _ ⟨⟩
    exact hobject rfl

theorem readValue_list {fuel : Nat} {s text rest : List Char} {items : List Value}
    (hskip : skip s = text) (hhead : text.head? ≠ some ']')
    (hitems : readItems fuel text = some (items, rest)) :
    readValue (fuel + 1) ('[' :: s) = some (.arr items, rest) := by
  rw [readValue, hskip]
  split
  · exact absurd rfl hhead
  · rw [hitems]
    rfl

theorem readItems_last {fuel : Nat} {s behind rest : List Char} {v : Value}
    (hv : readValue fuel s = some (v, behind)) (hskip : skip behind = ']' :: rest) :
    readItems (fuel + 1) s = some ([v], rest) := by
  rw [readItems, hv, Option.bind_some, hskip]
  rfl

theorem readItems_more {fuel : Nat} {s behind more rest : List Char} {v : Value}
    {items : List Value} (hv : readValue fuel s = some (v, ',' :: behind))
    (hskip : skip behind = more) (hitems : readItems fuel more = some (items, rest)) :
    readItems (fuel + 1) s = some (v :: items, rest) := by
  rw [readItems, hv, Option.bind_some, skip_cons (by decide)]
  simp only [hskip, hitems, Option.map_some]

theorem readMembers_first {fuel : Nat} (key : List Char) {s behind : List Char} {v : Value}
    (hskip : skip s = s) (hv : readValue fuel s = some (v, behind)) :
    readMembers (fuel + 1) (quoted key ++ ':' :: ' ' :: s) =
      match skip behind with
      | ',' :: rest => (readMembers fuel (skip rest)).map fun q => ((key, v) :: q.1, q.2)
      | '}' :: rest => some ([(key, v)], rest)
      | _ => none := by
  have hquoted : quoted key ++ ':' :: ' ' :: s =
      '"' :: (key.flatMap escape ++ '"' :: ':' :: ' ' :: s) := by
    simp [quoted]
  have hcolon : skip (':' :: ' ' :: s) = ':' :: ' ' :: s := skip_cons (by decide) _
  have hblank : skip (' ' :: s) = s := hskip
  rw [hquoted, readMembers, readString_quoted, Option.bind_some]
  simp only [hcolon, hblank, hv, Option.bind_some]

/-- The reader reads the value back wherever it is written. -/
def Reads (v : Value) : Prop :=
  ∀ fuel rest, need v ≤ fuel → Ends rest → readValue fuel (dumps v ++ rest) = some (v, rest)

theorem dumpsItems_head (space : List Char) {items : List Value} (hne : items ≠ [])
    (tail : List Char) :
    ∃ c rest, dumpsItems space items ++ tail = c :: rest ∧ isSpace c = false ∧ c ≠ ']' := by
  cases items with
  | nil => exact absurd rfl hne
  | cons v items =>
      obtain ⟨c, rest, hdumps, hc⟩ := dumps_head v
      cases items with
      | nil => exact ⟨c, rest ++ tail, by rw [dumpsItems, hdumps]; rfl, hc⟩
      | cons v' items =>
          refine ⟨c, rest ++ (',' :: space ++ dumpsItems space (v' :: items) ++ tail), ?_, hc⟩
          simp [dumpsItems, hdumps]

theorem readItems_dumps {space after : List Char} (hspace : ∀ c ∈ space, isSpace c = true)
    (hafter : ∀ c ∈ after, isSpace c = true) {items : List Value} (hne : items ≠ [])
    (hitems : ∀ v ∈ items, Reads v) {fuel : Nat} (hfuel : needItems items ≤ fuel)
    (rest : List Char) :
    readItems fuel (dumpsItems space items ++ (after ++ ']' :: rest)) = some (items, rest) := by
  induction items generalizing fuel with
  | nil => exact absurd rfl hne
  | cons v items ih =>
      rw [needItems] at hfuel
      obtain ⟨fuel, rfl⟩ : ∃ fuel', fuel = fuel' + 1 := ⟨fuel - 1, by omega⟩
      have hv (behind : List Char) (hbehind : Ends behind) :
          readValue fuel (dumps v ++ behind) = some (v, behind) :=
        hitems v List.mem_cons_self fuel behind (by omega) hbehind
      cases items with
      | nil =>
          refine readItems_last (hv _ (ends_space hafter (ends_cons (by decide) _))) ?_
          rw [skip_space hafter, skip_cons (by decide)]
      | cons v' items =>
          have hdeep : needItems (v' :: items) ≤ fuel := by omega
          have hrest := ih (List.cons_ne_nil _ _)
            (fun w hw => hitems w (List.mem_cons_of_mem _ hw)) hdeep
          obtain ⟨c, tail, htext, hc, -⟩ := dumpsItems_head space (List.cons_ne_nil v' items)
            (after ++ ']' :: rest)
          have hwritten : dumpsItems space (v :: v' :: items) ++ (after ++ ']' :: rest) =
              dumps v ++ ',' :: (space ++ (dumpsItems space (v' :: items) ++
                (after ++ ']' :: rest))) := by
            simp [dumpsItems]
          rw [hwritten]
          refine readItems_more (hv _ (ends_cons (by decide) _)) ?_ hrest
          rw [skip_space hspace, htext, skip_cons hc]

theorem readValue_items {space after : List Char} (hspace : ∀ c ∈ space, isSpace c = true)
    (hafter : ∀ c ∈ after, isSpace c = true) {before : List Char}
    (hbefore : ∀ c ∈ before, isSpace c = true) {items : List Value}
    (hitems : ∀ v ∈ items, Reads v) {fuel : Nat} (hfuel : needItems items ≤ fuel)
    (rest : List Char) :
    readValue (fuel + 1)
        ('[' :: (before ++ (dumpsItems space items ++ (after ++ ']' :: rest)))) =
      some (.arr items, rest) := by
  by_cases hne : items = []
  · subst hne
    have hskip : skip (before ++ (dumpsItems space [] ++ (after ++ ']' :: rest))) = ']' :: rest := by
      rw [skip_space hbefore, dumpsItems, List.nil_append, skip_space hafter, skip_cons (by decide)]
    rw [readValue, hskip]
    rfl
  · have hread := readItems_dumps hspace hafter hne hitems hfuel rest
    obtain ⟨c, tail, htext, hc, hclose⟩ := dumpsItems_head space hne (after ++ ']' :: rest)
    rw [htext] at hread ⊢
    refine readValue_list (by rw [skip_space hbefore, skip_cons hc]) ?_ hread
    rw [List.head?_cons]
    exact fun h => hclose (Option.some.inj h)

theorem readMembers_dumps {members : List (List Char × Value)} (hne : members ≠ [])
    (hmembers : ∀ p ∈ members, Reads p.2) {fuel : Nat} (hfuel : needMembers members ≤ fuel)
    (rest : List Char) :
    readMembers fuel (dumpsMembers members ++ '}' :: rest) = some (members, rest) := by
  induction members generalizing fuel with
  | nil => exact absurd rfl hne
  | cons p members ih =>
      obtain ⟨key, v⟩ := p
      rw [needMembers] at hfuel
      obtain ⟨fuel, rfl⟩ : ∃ fuel', fuel = fuel' + 1 := ⟨fuel - 1, by omega⟩
      have hv (behind : List Char) (hbehind : Ends behind) :
          readValue fuel (dumps v ++ behind) = some (v, behind) :=
        hmembers (key, v) List.mem_cons_self fuel behind (show need v ≤ fuel by omega) hbehind
      cases members with
      | nil =>
          have hwritten : dumpsMembers [(key, v)] ++ '}' :: rest =
              quoted key ++ ':' :: ' ' :: (dumps v ++ '}' :: rest) := by
            simp [dumpsMembers]
          rw [hwritten, readMembers_first key (skip_dumps v _)
            (hv _ (ends_cons (by decide) _)), skip_cons (by decide)]
          rfl
      | cons q members =>
          have hdeep : needMembers (q :: members) ≤ fuel := by omega
          have hrest := ih (List.cons_ne_nil _ _)
            (fun p hp => hmembers p (List.mem_cons_of_mem _ hp)) hdeep
          have hwritten : dumpsMembers ((key, v) :: q :: members) ++ '}' :: rest =
              quoted key ++ ':' :: ' ' :: (dumps v ++ ',' :: ' ' ::
                (dumpsMembers (q :: members) ++ '}' :: rest)) := by
            simp [dumpsMembers]
          have hnext : skip (' ' :: (dumpsMembers (q :: members) ++ '}' :: rest)) =
              dumpsMembers (q :: members) ++ '}' :: rest := by
            obtain ⟨key', v'⟩ := q
            cases members <;> rfl
          rw [hwritten, readMembers_first key (skip_dumps v _)
            (hv _ (ends_cons (by decide) _)), skip_cons (by decide)]
          simp only [hnext, hrest, Option.map_some]

theorem readValue_members {members : List (List Char × Value)}
    (hkeys : (members.map Prod.fst).Nodup) (hmembers : ∀ p ∈ members, Reads p.2) {fuel : Nat}
    (hfuel : needMembers members ≤ fuel) (rest : List Char) :
    readValue (fuel + 1) ('{' :: (dumpsMembers members ++ '}' :: rest)) =
      some (.obj members, rest) := by
  cases members with
  | nil => rfl
  | cons p members =>
      have hread := readMembers_dumps (List.cons_ne_nil p members) hmembers hfuel rest
      obtain ⟨key, v⟩ := p
      obtain ⟨tail, htext⟩ : ∃ tail, dumpsMembers ((key, v) :: members) ++ '}' :: rest =
          '"' :: tail := by
        cases members <;> exact ⟨_, rfl⟩
      rw [htext] at hread ⊢
      rw [readValue, skip_cons (by decide)]
      change (readMembers fuel ('"' :: tail)).map _ = _
      rw [hread, Option.map_some, dictOf_nodup hkeys]

theorem Keyed.reads {v : Value} (hv : Keyed v) : Reads v := by
  induction hv with
  | null =>
      rintro (_ | fuel) rest hfuel hrest
      · cases hfuel
      · rfl
  | bool b =>
      rintro (_ | fuel) rest hfuel hrest
      · cases hfuel
      · cases b <;> rfl
  | number n =>
      rintro (_ | fuel) rest hfuel hrest
      · cases hfuel
      · obtain ⟨c, tail, htext, hquote, hlist, hobject, -⟩ := numeral_head n
        have hscalar := readScalar_number n hrest
        rw [htext, List.cons_append] at hscalar
        rw [dumps, htext, List.cons_append, readValue_scalar hquote hlist hobject, hscalar]
  | constant k =>
      rintro (_ | fuel) rest hfuel hrest
      · cases hfuel
      · cases k <;> rfl
  | str s =>
      rintro (_ | fuel) rest hfuel hrest
      · cases hfuel
      · exact readValue_str fuel s rest
  | @arr items hitems ih =>
      rintro (_ | fuel) rest hfuel hrest
      · simp [need] at hfuel
      · have hdeep : needItems items ≤ fuel := by
          rw [need] at hfuel
          omega
        have hnone : ∀ c ∈ ([] : List Char), isSpace c = true := fun c hc => by cases hc
        have hblank : ∀ c ∈ [' '], isSpace c = true := List.all_eq_true.mp rfl
        have hread := readValue_items hblank hnone hnone ih hdeep rest
        simpa [dumps] using hread
  | @obj members hkeys hmembers ih =>
      rintro (_ | fuel) rest hfuel hrest
      · simp [need] at hfuel
      · have hdeep : needMembers members ≤ fuel := by
          rw [need] at hfuel
          omega
        have hread := readValue_members hkeys ih hdeep rest
        simpa [dumps] using hread

mutual

theorem need_le (v : Value) : need v ≤ (dumps v).length := by
  match v with
  | .null => simp [need, dumps]
  | .bool true => simp [need, dumps]
  | .bool false => simp [need, dumps]
  | .number n =>
      obtain ⟨c, rest, htext, -⟩ := numeral_head n
      simp [need, dumps, htext]
  | .constant .nan => exact Nat.succ_le_succ (Nat.zero_le _)
  | .constant .infinity => exact Nat.succ_le_succ (Nat.zero_le _)
  | .constant .negInfinity => exact Nat.succ_le_succ (Nat.zero_le _)
  | .str s => simp [need, dumps, quoted]
  | .arr items =>
      have hitems := needItems_le [' '] items
      simp only [need, dumps, List.length_append, List.length_cons, List.length_nil]
      omega
  | .obj members =>
      have hmembers := needMembers_le members
      simp only [need, dumps, List.length_append, List.length_cons, List.length_nil]
      omega

theorem needItems_le (space : List Char) (items : List Value) :
    needItems items ≤ (dumpsItems space items).length + 1 := by
  match items with
  | [] => simp [needItems]
  | [v] =>
      have hv := need_le v
      simp only [needItems, dumpsItems]
      omega
  | v :: v' :: items =>
      have hv := need_le v
      have hrest := needItems_le space (v' :: items)
      rw [needItems, dumpsItems]
      · simp only [List.length_append, List.length_cons]
        omega
      · simp

theorem needMembers_le (members : List (List Char × Value)) :
    needMembers members ≤ (dumpsMembers members).length + 1 := by
  match members with
  | [] => simp [needMembers]
  | [(key, v)] =>
      have hv := need_le v
      simp only [needMembers, dumpsMembers, List.length_append, List.length_cons]
      omega
  | (key, v) :: p :: members =>
      have hv := need_le v
      have hrest := needMembers_le (p :: members)
      rw [needMembers, dumpsMembers]
      · simp only [List.length_append, List.length_cons]
        omega
      · simp

end

theorem loads_items {space before after tail : List Char}
    (hspace : ∀ c ∈ space, isSpace c = true) (hbefore : ∀ c ∈ before, isSpace c = true)
    (hafter : ∀ c ∈ after, isSpace c = true) (htail : ∀ c ∈ tail, isSpace c = true)
    {items : List Value} (hitems : ∀ v ∈ items, Keyed v) :
    loads ('[' :: (before ++ (dumpsItems space items ++ (after ++ ']' :: tail)))) =
      some (.arr items) := by
  have hneed := needItems_le space items
  have hfuel : needItems items ≤
      ('[' :: (before ++ (dumpsItems space items ++ (after ++ ']' :: tail)))).length := by
    simp only [List.length_cons, List.length_append]
    omega
  have hread := readValue_items hspace hafter hbefore (fun v hv => (hitems v hv).reads) hfuel tail
  have hnone : skip tail = [] := by
    have hall := skip_space htail []
    rwa [List.append_nil] at hall
  rw [loads, skip_cons (by decide), hread, Option.bind_some, hnone, if_pos rfl]

end LeadPipe.Framework.JsonText
