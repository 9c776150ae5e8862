import Custody.Object.Kind

/-! Names that a session gives to things. Things of different roles, and handles of
different kinds, may share a name. -/

namespace Custody

/-- What a name stands for. -/
inductive Role where
  | heap
  | address
  | block
  | guard
  | owner (k : Kind)
  | soft (k : Kind)
  | scan (k : Kind)
  /-- A scan that is used up one element at a time. -/
  | values (k : Kind)
  | walk (k : Kind)
  /-- A walk that is used up one node at a time. -/
  | nodes (k : Kind)
  deriving DecidableEq, Repr

/-- The number that each name stands for, the latest name first. -/
structure Names where
  entries : List ((Role × String) × Nat)
  deriving DecidableEq, Repr

namespace Names

def empty : Names := ⟨[]⟩

def find? (n : Names) (r : Role) (name : String) : Option Nat := n.entries.lookup (r, name)

def erase (n : Names) (r : Role) (name : String) : Names :=
  ⟨n.entries.filter fun e => e.1 ≠ (r, name)⟩

/-- Gives a name that is not in use. -/
def add (n : Names) (r : Role) (name : String) (i : Nat) : Names := ⟨((r, name), i) :: n.entries⟩

/-- Gives a name, instead of what it stood for before. -/
def insert (n : Names) (r : Role) (name : String) (i : Nat) : Names :=
  (n.erase r name).add r name i

/-- The names in a role, with what they stand for. -/
def inRole (n : Names) (r : Role) : List (String × Nat) :=
  n.entries.filterMap fun e => if e.1.1 = r then some (e.1.2, e.2) else none

end Names

end Custody
