import Mathlib.Tactic.Common

/-!
# Transactions with an invalid state

A `Txn` program runs inside one database transaction. It reads a view of the data, appends
to a log of writes, and raises. A statement the database refuses leaves the transaction
invalid, and then every later statement raises until somebody rolls back; a program that
merely catches the exception goes on with a dead session.
-/

namespace LeadPipe.Framework

class Replays (ω σ : Type) where
  apply : ω → σ → σ

/-- `fault` is the ordinal, counted from zero, of the statement the database will refuse. -/
structure Session (σ ω μ : Type) where
  view : σ
  log : List ω
  invalid : Bool
  fault : Option Nat
  notes : μ

inductive Exn (ε : Type) where
  | raised (e : ε)
  | database
  | invalidated
  deriving DecidableEq, Repr

def Txn (σ ω μ ε α : Type) : Type := Session σ ω μ → Except (Exn ε) α × Session σ ω μ

variable {σ ω μ ε α β : Type}

namespace Session

variable [Replays ω σ]

def replay (ws : List ω) (v : σ) : σ := ws.foldl (fun v w => Replays.apply w v) v

@[simp] theorem replay_nil (v : σ) : replay ([] : List ω) v = v := rfl

@[simp] theorem replay_cons (w : ω) (ws : List ω) (v : σ) :
    replay (w :: ws) v = replay ws (Replays.apply w v) := rfl

theorem replay_append (ws vs : List ω) (v : σ) :
    replay (ws ++ vs) v = replay vs (replay ws v) := by
  simp [replay]

def emit (s : Session σ ω μ) (ws : List ω) : Session σ ω μ :=
  { s with view := replay ws s.view, log := s.log ++ ws }

def note (s : Session σ ω μ) (f : μ → μ) : Session σ ω μ :=
  { s with notes := f s.notes }

/-- A valid session whose statements will all succeed. -/
structure Healthy (s : Session σ ω μ) : Prop where
  valid : s.invalid = false
  quiet : s.fault = none

variable {s : Session σ ω μ}

@[simp] theorem emit_view (s : Session σ ω μ) (ws : List ω) :
    (s.emit ws).view = replay ws s.view := rfl
@[simp] theorem emit_log (s : Session σ ω μ) (ws : List ω) : (s.emit ws).log = s.log ++ ws := rfl
@[simp] theorem emit_notes (s : Session σ ω μ) (ws : List ω) : (s.emit ws).notes = s.notes := rfl
omit [Replays ω σ] in
@[simp] theorem note_view (s : Session σ ω μ) (f : μ → μ) : (s.note f).view = s.view := rfl
omit [Replays ω σ] in
@[simp] theorem note_log (s : Session σ ω μ) (f : μ → μ) : (s.note f).log = s.log := rfl
omit [Replays ω σ] in
@[simp] theorem note_notes (s : Session σ ω μ) (f : μ → μ) : (s.note f).notes = f s.notes := rfl

@[simp] theorem emit_nil (s : Session σ ω μ) : s.emit ([] : List ω) = s := by
  simp [emit]

theorem emit_emit (s : Session σ ω μ) (ws vs : List ω) :
    (s.emit ws).emit vs = s.emit (ws ++ vs) := by
  simp [emit, replay_append]

theorem Healthy.emit (h : s.Healthy) (ws : List ω) : (s.emit ws).Healthy := ⟨h.1, h.2⟩

omit [Replays ω σ] in
theorem Healthy.note (h : s.Healthy) (f : μ → μ) : (s.note f).Healthy := ⟨h.1, h.2⟩

end Session

namespace Txn

instance : Monad (Txn σ ω μ ε) where
  pure a := fun s => (.ok a, s)
  bind m f := fun s =>
    match m s with
    | (.ok a, s') => f a s'
    | (.error e, s') => (.error e, s')

def raise (e : ε) : Txn σ ω μ ε α := fun s => (.error (.raised e), s)

def lift : Except ε α → Txn σ ω μ ε α
  | .ok a => pure a
  | .error e => raise e

def note (f : μ → μ) : Txn σ ω μ ε Unit := fun s => (.ok (), s.note f)

/-- One statement: the database may refuse it, and an invalid session always does. -/
def statement : Txn σ ω μ ε Unit := fun s =>
  if s.invalid then (.error .invalidated, s)
  else
    match s.fault with
    | none => (.ok (), s)
    | some 0 => (.error .database, { s with invalid := true })
    | some (n + 1) => (.ok (), { s with fault := some n })

def peek (f : σ → α) : Txn σ ω μ ε α := fun s => (.ok (f s.view), s)

def counters : Txn σ ω μ ε μ := fun s => (.ok s.notes, s)

def query (f : σ → α) : Txn σ ω μ ε α := do
  statement
  peek f

def emit [Replays ω σ] (w : ω) : Txn σ ω μ ε Unit := fun s => (.ok (), s.emit [w])

def execute [Replays ω σ] (w : ω) : Txn σ ω μ ε Unit := do
  statement
  emit w

/-- Runs a program on a fresh session and commits: what the database holds afterwards, or the
exception, which rolls everything back. An invalid session cannot be committed. -/
def commit (m : Txn σ ω μ ε α) (s : Session σ ω μ) : Except (Exn ε) σ :=
  match m s with
  | (.ok _, s') => if s'.invalid then .error .invalidated else .ok s'.view
  | (.error e, _) => .error e

section Rules

variable {m : Txn σ ω μ ε α} {f : α → Txn σ ω μ ε β} {s s' : Session σ ω μ}

@[simp] theorem pure_run (a : α) (s : Session σ ω μ) :
    (pure a : Txn σ ω μ ε α) s = (.ok a, s) := rfl

theorem bind_ok {a : α} (h : m s = (.ok a, s')) : (m >>= f) s = f a s' := by
  change (match m s with | (.ok a, s') => f a s' | (.error e, s') => (.error e, s')) = _
  rw [h]

theorem bind_error {e : Exn ε} (h : m s = (.error e, s')) : (m >>= f) s = (.error e, s') := by
  change (match m s with | (.ok a, s') => f a s' | (.error e, s') => (.error e, s')) = _
  rw [h]

@[simp] theorem lift_ok (a : α) : (lift (.ok a) : Txn σ ω μ ε α) = pure a := rfl

@[simp] theorem note_run (g : μ → μ) (s : Session σ ω μ) :
    (note g : Txn σ ω μ ε Unit) s = (.ok (), s.note g) := rfl

@[simp] theorem peek_run (g : σ → α) (s : Session σ ω μ) :
    (peek g : Txn σ ω μ ε α) s = (.ok (g s.view), s) := rfl

@[simp] theorem counters_run (s : Session σ ω μ) :
    (counters : Txn σ ω μ ε μ) s = (.ok s.notes, s) := rfl

theorem statement_healthy (h : s.Healthy) :
    (statement : Txn σ ω μ ε Unit) s = (.ok (), s) := by
  simp [statement, h.valid, h.quiet]

theorem query_healthy (h : s.Healthy) (g : σ → α) :
    (query g : Txn σ ω μ ε α) s = (.ok (g s.view), s) :=
  bind_ok (statement_healthy h)

theorem execute_healthy [Replays ω σ] (h : s.Healthy) (w : ω) :
    (execute w : Txn σ ω μ ε Unit) s = (.ok (), s.emit [w]) :=
  bind_ok (statement_healthy h)

end Rules

end Txn

end LeadPipe.Framework
