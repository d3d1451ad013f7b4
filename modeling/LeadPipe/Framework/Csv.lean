import Mathlib.Data.List.Basic

/-!
# Delimited rows

A writer that quotes a field only where it must, and a reader that takes the characters of one line
after another, with an end-of-line mark after each. A quoted field may run over many lines, so that
lines and rows are not the same. Fields longer than a limit are refused.

What is written is read back: the reader is followed through one field, one row, and then all of
them.
-/

namespace LeadPipe.Framework.Csv

variable {α : Type}

structure Dialect (α : Type) where
  delimiter : α
  quote : α
  lf : α
  cr : α
  distinct : [delimiter, quote, lf, cr].Nodup

namespace Dialect

variable (d : Dialect α)

theorem delimiter_ne_quote : d.delimiter ≠ d.quote := by
  intro h
  simpa [h] using d.distinct

variable [DecidableEq α]

def isBreak (c : α) : Bool := c = d.lf || c = d.cr

def quotes (field : List α) : Bool :=
  field.any fun c => c = d.delimiter || c = d.quote || d.isBreak c

def double (field : List α) : List α :=
  field.flatMap fun c => if c = d.quote then [d.quote, d.quote] else [c]

def enclose (field : List α) : List α := d.quote :: d.double field ++ [d.quote]

def writeField (field : List α) : List α :=
  if d.quotes field then d.enclose field else field

def joinFields : List (List α) → List α
  | [] => []
  | [field] => d.writeField field
  | field :: fields => d.writeField field ++ d.delimiter :: joinFields fields

/-- A row of one empty field is quoted, or else it would be a row of none. -/
def writeRow (row : List (List α)) : List α :=
  (if row = [[]] then d.enclose [] else d.joinFields row) ++ [d.lf]

/-- The line ends behind the character: a line feed, or a carriage return that none follows. -/
def endsLine (c : α) (rest : List α) : Bool := c = d.lf || (c = d.cr && rest.head? ≠ some d.lf)

def lines : List α → List (List α)
  | [] => []
  | c :: rest =>
      if d.endsLine c rest then [c] :: lines rest
      else
        match lines rest with
        | [] => [[c]]
        | line :: more => (c :: line) :: more

end Dialect

inductive Phase where
  | startRecord
  | startField
  | inField
  | inQuotedField
  | quoteInQuotedField
  | eatNewline
  deriving DecidableEq

inductive Refusal where
  | newline
  | fieldLimit
  deriving DecidableEq

structure Reader (α : Type) where
  phase : Phase
  fields : List (List α)
  field : List α

variable [DecidableEq α] (d : Dialect α)

namespace Reader

variable (limit : Nat)

def start : Reader α := ⟨.startRecord, [], []⟩

def addChar (r : Reader α) (c : α) (phase : Phase) : Except Refusal (Reader α) :=
  if r.field.length < limit then .ok { r with phase, field := r.field ++ [c] }
  else .error .fieldLimit

def saveField (r : Reader α) (phase : Phase) : Reader α := ⟨phase, r.fields ++ [r.field], []⟩

/-- The record is over, with the line or before its line break. -/
def endRecord (r : Reader α) (c : Option α) : Reader α :=
  r.saveField (if c.isNone then .startRecord else .eatNewline)

def startField (r : Reader α) : Option α → Except Refusal (Reader α)
  | none => .ok (r.endRecord none)
  | some c =>
      if d.isBreak c then .ok (r.endRecord (some c))
      else if c = d.quote then .ok { r with phase := .inQuotedField }
      else if c = d.delimiter then .ok (r.saveField .startField)
      else r.addChar limit c .inField

def step (r : Reader α) (c : Option α) : Except Refusal (Reader α) :=
  match r.phase, c with
  | .startRecord, none => .ok r
  | .startRecord, some c =>
      if d.isBreak c then .ok { r with phase := .eatNewline } else r.startField d limit (some c)
  | .startField, c => r.startField d limit c
  | .inField, none => .ok (r.endRecord none)
  | .inField, some c =>
      if d.isBreak c then .ok (r.endRecord (some c))
      else if c = d.delimiter then .ok (r.saveField .startField)
      else r.addChar limit c .inField
  | .inQuotedField, none => .ok r
  | .inQuotedField, some c =>
      if c = d.quote then .ok { r with phase := .quoteInQuotedField }
      else r.addChar limit c .inQuotedField
  | .quoteInQuotedField, none => .ok (r.endRecord none)
  | .quoteInQuotedField, some c =>
      if c = d.quote then r.addChar limit c .inQuotedField
      else if c = d.delimiter then .ok (r.saveField .startField)
      else if d.isBreak c then .ok (r.endRecord (some c))
      else r.addChar limit c .inField
  | .eatNewline, none => .ok { r with phase := .startRecord }
  | .eatNewline, some c => if d.isBreak c then .ok r else .error .newline

def feed (r : Reader α) : List α → Except Refusal (Reader α)
  | [] => r.step d limit none
  | c :: line => (r.step d limit (some c)).bind fun r => feed r line

/-- The rows of the lines, and what ends them early. -/
def readLines (r : Reader α) : List (List α) → List (List (List α)) × Option Refusal
  | [] =>
      if r.field ≠ [] ∨ r.phase = .inQuotedField then ([r.fields ++ [r.field]], none) else ([], none)
  | line :: more =>
      match r.feed d limit line with
      | .error e => ([], some e)
      | .ok r =>
          if r.phase = .startRecord then
            let (rows, refusal) := readLines start more
            (r.fields :: rows, refusal)
          else readLines r more

def read (r : Reader α) (text : List α) : List (List (List α)) × Option Refusal :=
  r.readLines d limit (d.lines text)

end Reader

namespace Dialect

theorem delimiter_not_break : d.isBreak d.delimiter = false := by
  have hdistinct := d.distinct
  simp only [List.nodup_cons, List.mem_cons, not_or, List.not_mem_nil, not_false_eq_true,
    and_true] at hdistinct
  simp [isBreak, hdistinct.1.2]

theorem quote_not_break : d.isBreak d.quote = false := by
  have hdistinct := d.distinct
  simp only [List.nodup_cons, List.mem_cons, not_or, List.not_mem_nil, not_false_eq_true,
    and_true] at hdistinct
  simp [isBreak, hdistinct.2.1]

theorem lf_break : d.isBreak d.lf = true := by simp [isBreak]

variable {d} {c : α} {rest : List α}

theorem not_endsLine (h : d.isBreak c = false) : d.endsLine c rest = false := by
  simp only [isBreak, Bool.or_eq_false_iff, decide_eq_false_iff_not] at h
  simp [endsLine, h.1, h.2]

theorem lines_within (h : d.endsLine c rest = false) (hrest : rest ≠ []) :
    ∃ line more, d.lines rest = line :: more ∧ d.lines (c :: rest) = (c :: line) :: more := by
  cases hlines : d.lines rest with
  | nil =>
      cases rest with
      | nil => exact absurd rfl hrest
      | cons c' rest =>
          rw [lines] at hlines
          split at hlines
          · cases hlines
          · split at hlines <;> cases hlines
  | cons line more =>
      refine ⟨line, more, rfl, ?_⟩
      rw [lines, if_neg (by simp [h]), hlines]

theorem lines_ending (h : d.endsLine c rest = true) :
    d.lines (c :: rest) = [c] :: d.lines rest := by
  rw [lines, if_pos h]

end Dialect

namespace Reader

variable {d : Dialect α} {limit : Nat} {r r' : Reader α} {c : α} {rest : List α}

theorem read_within (h : d.endsLine c rest = false) (hrest : rest ≠ [])
    (hstep : r.step d limit (some c) = .ok r') :
    r.read d limit (c :: rest) = r'.read d limit rest := by
  obtain ⟨line, more, hlines, hmore⟩ := Dialect.lines_within h hrest
  rw [read, read, hlines, hmore, readLines, readLines, feed, hstep]
  rfl

/-- A line break within a quoted field belongs to the field. -/
theorem read_quoted {fields : List (List α)} {field : List α} (hc : c ≠ d.quote)
    (hlimit : field.length < limit) (hrest : rest ≠ []) :
    (Reader.mk .inQuotedField fields field).read d limit (c :: rest) =
      (Reader.mk .inQuotedField fields (field ++ [c])).read d limit rest := by
  have hstep : (Reader.mk .inQuotedField fields field).step d limit (some c) =
      .ok ⟨.inQuotedField, fields, field ++ [c]⟩ := by
    simp [step, hc, addChar, hlimit]
  cases hends : d.endsLine c rest with
  | false => exact read_within hends hrest hstep
  | true =>
      rw [read, Dialect.lines_ending hends, readLines, feed, hstep]
      simp only [Except.bind, feed, step]
      rfl

theorem read_rowEnd {fields : List (List α)}
    (hstep : r.step d limit (some d.lf) = .ok ⟨.eatNewline, fields, []⟩) (rest : List α) :
    r.read d limit (d.lf :: rest) =
      (fields :: (start.read d limit rest).1, (start.read d limit rest).2) := by
  have hends : d.endsLine d.lf rest = true := by simp [Dialect.endsLine]
  rw [read, Dialect.lines_ending hends, readLines, feed, hstep]
  simp [Except.bind, feed, step, read]

variable {fields : List (List α)}

theorem read_double (hrest : rest ≠ []) (field : List α) {s : List α}
    (hlimit : (field ++ s).length ≤ limit) :
    (Reader.mk .inQuotedField fields field).read d limit (d.double s ++ d.quote :: rest) =
      (Reader.mk .quoteInQuotedField fields (field ++ s)).read d limit rest := by
  induction s generalizing field with
  | nil =>
      rw [List.append_nil]
      exact read_within (Dialect.not_endsLine d.quote_not_break) hrest (by simp [step])
  | cons c s ih =>
      have hlt : field.length < limit := by
        rw [List.length_append, List.length_cons] at hlimit
        omega
      have hgrown : (field ++ [c]) ++ s = field ++ c :: s := by simp
      have htail := ih (field ++ [c]) (by rwa [hgrown])
      rw [hgrown] at htail
      rw [← htail, Dialect.double, List.flatMap_cons, List.append_assoc]
      by_cases hc : c = d.quote
      · subst hc
        rw [if_pos rfl]
        have hopened : (Reader.mk .inQuotedField fields field).step d limit (some d.quote) =
            .ok ⟨.quoteInQuotedField, fields, field⟩ := by
          simp [step]
        have hclosed : (Reader.mk .quoteInQuotedField fields field).step d limit
            (some d.quote) = .ok ⟨.inQuotedField, fields, field ++ [d.quote]⟩ := by
          simp [step, addChar, hlt]
        exact (read_within (Dialect.not_endsLine d.quote_not_break) (by simp) hopened).trans
          (read_within (Dialect.not_endsLine d.quote_not_break) (by simp) hclosed)
      · rw [if_neg hc]
        exact read_quoted hc hlt (by simp)

theorem read_plain (hrest : rest ≠ []) (field : List α) {s : List α} (hs : d.quotes s = false)
    (hlimit : (field ++ s).length ≤ limit) :
    (Reader.mk .inField fields field).read d limit (s ++ rest) =
      (Reader.mk .inField fields (field ++ s)).read d limit rest := by
  induction s generalizing field with
  | nil => simp
  | cons c s ih =>
      have hlt : field.length < limit := by
        rw [List.length_append, List.length_cons] at hlimit
        omega
      rw [Dialect.quotes, List.any_cons, Bool.or_eq_false_iff] at hs
      obtain ⟨hc, hs⟩ := hs
      simp only [Bool.or_eq_false_iff, decide_eq_false_iff_not] at hc
      obtain ⟨⟨hdelimiter, -⟩, hbreak⟩ := hc
      have hgrown : (field ++ [c]) ++ s = field ++ c :: s := by simp
      have htail := ih (field ++ [c]) hs (by rwa [hgrown])
      rw [hgrown] at htail
      rw [← htail, List.cons_append]
      exact read_within (Dialect.not_endsLine hbreak) (by simp [hrest])
        (by simp [step, hbreak, hdelimiter, addChar, hlt])

/-- What a reader that has taken a field in does behind it. -/
structure Holds (d : Dialect α) (limit : Nat) (fields : List (List α)) (s : List α)
    (r : Reader α) : Prop where
  delimiter : r.step d limit (some d.delimiter) = .ok ⟨.startField, fields ++ [s], []⟩
  lf : r.step d limit (some d.lf) = .ok ⟨.eatNewline, fields ++ [s], []⟩

theorem read_enclose (d : Dialect α) (fields : List (List α)) {s : List α}
    (hlimit : s.length ≤ limit) :
    ∃ r, Holds d limit fields s r ∧ ∀ rest, rest ≠ [] →
      (Reader.mk .startField fields []).read d limit (d.enclose s ++ rest) =
        r.read d limit rest := by
  refine ⟨⟨.quoteInQuotedField, fields, s⟩, ⟨?_, ?_⟩, fun rest hrest => ?_⟩
  · simp [step, d.delimiter_ne_quote, saveField]
  · have hne : d.lf ≠ d.quote := fun h => by simpa [← h, d.lf_break] using d.quote_not_break
    have hne' : d.lf ≠ d.delimiter := fun h => by
      simpa [← h, d.lf_break] using d.delimiter_not_break
    simp [step, hne, hne', d.lf_break, endRecord, saveField]
  · have hopened : (Reader.mk .startField fields []).step d limit (some d.quote) =
        .ok ⟨.inQuotedField, fields, []⟩ := by
      simp [step, startField, d.quote_not_break]
    have hbody : (Reader.mk .inQuotedField fields []).read d limit
        (d.double s ++ d.quote :: rest) =
          (Reader.mk .quoteInQuotedField fields s).read d limit rest :=
      read_double hrest [] hlimit
    rw [← hbody, Dialect.enclose, List.cons_append, List.cons_append, List.append_assoc]
    exact read_within (Dialect.not_endsLine d.quote_not_break) (by simp) hopened

theorem read_field (d : Dialect α) (fields : List (List α)) {s : List α}
    (hlimit : s.length ≤ limit) :
    ∃ r, Holds d limit fields s r ∧ ∀ rest, rest ≠ [] →
      (Reader.mk .startField fields []).read d limit (d.writeField s ++ rest) =
        r.read d limit rest := by
  cases hquotes : d.quotes s with
  | true =>
      rw [Dialect.writeField, if_pos hquotes]
      exact read_enclose d fields hlimit
  | false =>
      rw [Dialect.writeField, hquotes, if_neg Bool.false_ne_true]
      cases s with
      | nil =>
          refine ⟨⟨.startField, fields, []⟩, ⟨?_, ?_⟩, fun rest _ => rfl⟩
          · simp [step, startField, d.delimiter_not_break, d.delimiter_ne_quote, saveField]
          · simp [step, startField, d.lf_break, endRecord, saveField]
      | cons c s =>
          have hparts := hquotes
          rw [Dialect.quotes, List.any_cons, Bool.or_eq_false_iff] at hparts
          obtain ⟨hc, hs⟩ := hparts
          simp only [Bool.or_eq_false_iff, decide_eq_false_iff_not] at hc
          obtain ⟨⟨hdelimiter, hquote⟩, hbreak⟩ := hc
          have hlt : 0 < limit := by
            rw [List.length_cons] at hlimit
            omega
          refine ⟨⟨.inField, fields, c :: s⟩, ⟨?_, ?_⟩, fun rest hrest => ?_⟩
          · simp [step, d.delimiter_not_break, saveField]
          · simp [step, d.lf_break, endRecord, saveField]
          · have hfirst : (Reader.mk .startField fields []).step d limit (some c) =
                .ok ⟨.inField, fields, [c]⟩ := by
              simp [step, startField, hbreak, hquote, hdelimiter, addChar, hlt]
            have hbody : (Reader.mk .inField fields [c]).read d limit (s ++ rest) =
                (Reader.mk .inField fields (c :: s)).read d limit rest :=
              read_plain hrest [c] hs hlimit
            rw [← hbody, List.cons_append]
            exact read_within (Dialect.not_endsLine hbreak) (by simp [hrest]) hfirst

theorem read_joinFields (d : Dialect α) {row : List (List α)} (hrow : row ≠ [])
    (hlimit : ∀ field ∈ row, field.length ≤ limit) (fields : List (List α)) (rest : List α) :
    (Reader.mk .startField fields []).read d limit (d.joinFields row ++ d.lf :: rest) =
      ((fields ++ row) :: (start.read d limit rest).1, (start.read d limit rest).2) := by
  induction row generalizing fields with
  | nil => exact absurd rfl hrow
  | cons field row ih =>
      obtain ⟨r, hholds, hread⟩ := read_field d fields (hlimit field List.mem_cons_self)
      cases row with
      | nil =>
          rw [Dialect.joinFields, hread _ (List.cons_ne_nil _ _)]
          exact read_rowEnd hholds.lf rest
      | cons field' row =>
          have htail := ih (List.cons_ne_nil _ _)
            (fun f hf => hlimit f (List.mem_cons_of_mem _ hf)) (fields ++ [field])
          rw [List.append_assoc, List.singleton_append] at htail
          have hjoined : d.joinFields (field :: field' :: row) =
              d.writeField field ++ d.delimiter :: d.joinFields (field' :: row) := rfl
          rw [← htail, hjoined, List.append_assoc, List.cons_append,
            hread _ (List.cons_ne_nil _ _)]
          exact read_within (Dialect.not_endsLine d.delimiter_not_break) (by simp)
            hholds.delimiter

theorem read_startRecord (hc : d.isBreak c = false) (rest : List α) :
    start.read d limit (c :: rest) = (Reader.mk .startField [] []).read d limit (c :: rest) := by
  have hstep : (start (α := α)).step d limit (some c) =
      (Reader.mk .startField [] []).step d limit (some c) := by
    exact if_neg (by rw [hc]; exact Bool.false_ne_true)
  rw [read, read, Dialect.lines, Dialect.not_endsLine hc]
  cases d.lines rest with
  | nil => simp only [readLines, feed, hstep, Bool.false_eq_true, if_false]
  | cons line more => simp only [readLines, feed, hstep, Bool.false_eq_true, if_false]

theorem joinFields_head (d : Dialect α) {row : List (List α)} (hrow : row ≠ []) (hempty : row ≠ [[]])
    (tail : List α) :
    ∃ c rest, d.joinFields row ++ tail = c :: rest ∧ d.isBreak c = false := by
  have hfield (field : List α) (hfield : field ≠ []) (tail : List α) :
      ∃ c rest, d.writeField field ++ tail = c :: rest ∧ d.isBreak c = false := by
    cases hquotes : d.quotes field with
    | true =>
        rw [Dialect.writeField, if_pos hquotes]
        exact ⟨d.quote, _, rfl, d.quote_not_break⟩
    | false =>
        rw [Dialect.writeField, hquotes, if_neg Bool.false_ne_true]
        cases field with
        | nil => exact absurd rfl hfield
        | cons c field =>
            rw [Dialect.quotes, List.any_cons, Bool.or_eq_false_iff, Bool.or_eq_false_iff] at hquotes
            exact ⟨c, _, rfl, hquotes.1.2⟩
  cases row with
  | nil => exact absurd rfl hrow
  | cons field row =>
      cases row with
      | nil => exact hfield field (fun h => hempty (h ▸ rfl)) tail
      | cons field' row =>
          have hjoined : d.joinFields (field :: field' :: row) =
              d.writeField field ++ d.delimiter :: d.joinFields (field' :: row) := rfl
          rw [hjoined, List.append_assoc, List.cons_append]
          by_cases hnil : field = []
          · subst hnil
            exact ⟨d.delimiter, _, rfl, d.delimiter_not_break⟩
          · exact hfield field hnil _

theorem read_writeRow (d : Dialect α) {row : List (List α)}
    (hlimit : ∀ field ∈ row, field.length ≤ limit)
    (rest : List α) :
    start.read d limit (d.writeRow row ++ rest) =
      (row :: (start.read d limit rest).1, (start.read d limit rest).2) := by
  rw [Dialect.writeRow, List.append_assoc, List.singleton_append]
  by_cases hempty : row = [[]]
  · subst hempty
    have hnone : ([] : List α).length ≤ limit := Nat.zero_le limit
    obtain ⟨r, hholds, hread⟩ := read_enclose d [] hnone
    rw [if_pos rfl]
    refine (read_startRecord d.quote_not_break _).trans ?_
    exact (hread _ (List.cons_ne_nil _ _)).trans (read_rowEnd hholds.lf rest)
  · rw [if_neg hempty]
    by_cases hnil : row = []
    · subst hnil
      exact read_rowEnd (by simp [start, step, d.lf_break]) rest
    · obtain ⟨c, tail, htext, hc⟩ := joinFields_head d hnil hempty (d.lf :: rest)
      have hfields := read_joinFields d hnil hlimit [] rest
      rw [htext] at hfields ⊢
      exact (read_startRecord hc tail).trans hfields

end Reader

def rowsOf (d : Dialect α) (limit : Nat) (text : List α) :
    List (List (List α)) × Option Refusal :=
  Reader.start.read d limit text

def writeRows (d : Dialect α) (rows : List (List (List α))) : List α := rows.flatMap d.writeRow

/-- What is written is read, whatever the fields contain. -/
theorem rowsOf_writeRows {limit : Nat} {rows : List (List (List α))}
    (hlimit : ∀ row ∈ rows, ∀ field ∈ row, field.length ≤ limit) :
    rowsOf d limit (writeRows d rows) = (rows, none) := by
  induction rows with
  | nil => rfl
  | cons row rows ih =>
      have hrest := ih fun row' hrow' => hlimit row' (List.mem_cons_of_mem _ hrow')
      have hfirst := Reader.read_writeRow d (hlimit row List.mem_cons_self) (writeRows d rows)
      rw [rowsOf] at hrest
      rw [hrest] at hfirst
      exact hfirst

/-- `csv.excel`, with a line feed behind a row. -/
def excel : Dialect Char := ⟨',', '"', '\n', '\r', by decide⟩

/-- `csv.field_size_limit()` -/
def fieldLimit : Nat := 131072

end LeadPipe.Framework.Csv
