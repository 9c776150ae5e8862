import Custody.Session.Report
import Custody.World.Program

/-! Small machines that a session drives: each takes a command, answers or refuses,
and goes on from the state that it was left in. -/

namespace Custody

/-- A program over a state of its own; the state survives a fault. -/
abbrev Machine (σ : Type) (α : Type) := ExceptT Fault (StateM σ) α

namespace Machine

variable {σ α : Type}

/-- Runs one command. -/
def step (m : Machine σ α) (s : σ) : Except Fault α × σ := m.run s

def fail (f : Fault) : Machine σ α := throw f

/-- A refusal is passed on, or is fatal, as the manner has it. -/
def inManner (m : Manner) : Except Fault α → Machine σ α
  | .ok a => pure a
  | .error (.refused cause) =>
    fail (match m with
      | .attempt => .refused cause
      | .insist => .panicked (.fatal cause))
  | .error f => fail f

def access (m : Manner) (r : Except AccessRefusal α) : Machine σ α :=
  inManner m (r.mapError fun e => .refused (.access e))

def heap (r : Except HeapRefusal α) : Machine σ α :=
  inManner .attempt (r.mapError fun e => .refused (.heap e))

end Machine

/-- Things by name. -/
structure Cabinet (α : Type) where
  entries : List (String × α)

namespace Cabinet

variable {α : Type}

def empty : Cabinet α := ⟨[]⟩

def find? (c : Cabinet α) (name : String) : Option α := c.entries.lookup name

def put (c : Cabinet α) (name : String) (a : α) : Cabinet α :=
  ⟨(name, a) :: c.entries.filter fun e => e.1 ≠ name⟩

/-- What a name stands for. -/
def get {σ : Type} (c : Cabinet α) (name : String) : Machine σ α :=
  match c.find? name with
  | some a => pure a
  | none => Machine.fail .inapplicable

end Cabinet

end Custody
