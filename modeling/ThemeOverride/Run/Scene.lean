import ThemeOverride.Disk.Access
import ThemeOverride.Export.Record
import ThemeOverride.Failure
import ThemeOverride.Journal
import ThemeOverride.Run.Lint

/-!
# Scenes of a run

A run changes a disk, asks an operator and leaves events. It can fail, and then what it did up to
there remains.

## Main definitions

* `ThemeOverride.Event`: what happens in a run, besides changes of the disk.
* `ThemeOverride.Operator`: who answers questions.
* `ThemeOverride.Scene`, `ThemeOverride.Run`: the state of a run, and what changes it.
-/

namespace ThemeOverride

/-- What happens in a run, besides changes of the disk. -/
inductive Event where
  | noted (n : Note)
  /-- A question for exports of a file, with the exports that are offered. -/
  | askedExports (prompt : String) (offered : List ExportRecord)
  | askedStyle (prompt : String)
  | called (call : LintCall)
  deriving DecidableEq, Repr

/-- Who answers questions, with a state of their own. -/
structure Operator (σ : Type) where
  exports : (prompt : String) → (offered : List ExportRecord) → σ →
    Except Failure (List ExportRecord) × σ
  style : (prompt : String) → σ → Except Failure StyleOption × σ

/-- The state of a run: the disk, the state of the operator, and the events so far. -/
structure Scene (σ : Type) where
  disk : Disk
  operator : σ
  events : List Event := []

/-- What changes the state of a run and gives a result or fails. -/
def Run (σ α : Type) : Type := Scene σ → Except Failure α × Scene σ

namespace Run

variable {σ α β : Type}

/-- Gives a result and changes nothing. -/
protected def pure (a : α) : Run σ α := fun s => (.ok a, s)

/-- Goes on with a result, unless there was a failure. -/
protected def bind (r : Run σ α) (next : α → Run σ β) : Run σ β := fun s =>
  match r s with
  | (.ok a, s) => next a s
  | (.error f, s) => (.error f, s)

instance : Monad (Run σ) where
  pure := Run.pure
  bind := Run.bind

/-- A result that may be a failure. -/
def ofExcept (e : Except Failure α) : Run σ α := fun s => (e, s)

/-- What is on the disk. -/
def disk : Run σ Disk := fun s => (.ok s.disk, s)

/-- An event. -/
def happen (e : Event) : Run σ Unit := fun s => (.ok (), { s with events := s.events ++ [e] })

/-- Notes, one after the other. -/
def note (ns : List Note) : Run σ Unit := fun s =>
  (.ok (), { s with events := s.events ++ ns.map .noted })

/-- Something done to the disk, with what is noted, which may fail. -/
def change (f : Disk → Disk × List Note × Except Failure α) : Run σ α := fun s =>
  match f s.disk with
  | (d, ns, r) => (r, { s with disk := d, events := s.events ++ ns.map .noted })

/-- Asks the operator for exports among those that are offered. -/
def askExports (op : Operator σ) (prompt : String) (offered : List ExportRecord) :
    Run σ (List ExportRecord) := fun s =>
  match op.exports prompt offered s.operator with
  | (r, o) =>
    (r, { s with operator := o, events := s.events ++ [.askedExports prompt offered] })

/-- Asks the operator how styles are treated. -/
def askStyle (op : Operator σ) (prompt : String) : Run σ StyleOption := fun s =>
  match op.style prompt s.operator with
  | (r, o) => (r, { s with operator := o, events := s.events ++ [.askedStyle prompt] })

end Run

end ThemeOverride
