import Custody.Session.Names
import Custody.World.Program

/-! Steps of a session: programs over the world that also read and change the names
in use. A step that needs a name that is not given, or gives a name that is, cannot
be taken. -/

namespace Custody

structure Desk where
  names : Names
  /-- The counters of the named heaps as they were last shown. -/
  shown : List (String × Stats)
  deriving DecidableEq, Repr

def Desk.empty : Desk := ⟨.empty, []⟩

/-- A program that may end in a fault and keeps what it named until then. -/
abbrev Step (α : Type) := ExceptT Fault (StateT Desk Act) α

namespace Step

variable {α : Type}

def lift (a : Op α) : Step α := ExceptT.mk (StateT.lift a.run)

instance : MonadLift (ExceptT Fault Act) (ExceptT Fault (StateT Desk Act)) := ⟨lift⟩

def names : Step Names := do return (← (get : StateT Desk Act Desk)).names

def modifyNames (f : Names → Names) : Step Unit :=
  (modify fun d => { d with names := f d.names } : StateT Desk Act Unit)

/-- What a name stands for. -/
def named (r : Role) (name : String) : Step Nat := do
  match (← names).find? r name with
  | some i => return i
  | none => throw .inapplicable

/-- Gives a name, whatever it stood for. -/
def rename (r : Role) (name : String) (i : Nat) : Step Unit := modifyNames (·.insert r name i)

/-- Gives a name that is not in use. -/
def call (r : Role) (name : String) (i : Nat) : Step Unit := do
  if ((← names).find? r name).isSome then throw .inapplicable
  modifyNames (·.add r name i)

def look (f : World → α) : Step α := lift (Op.look f)

/-- What a name stands for, if that is not on loan. -/
def unlent? (r : Role) (name : String) (source : Nat → Source) : Step (Option Nat) := do
  match (← names).find? r name with
  | none => return none
  | some i => return if ← look (·.isLent (source i)) then none else some i

/-- What a name stands for, which must not be on loan. -/
def unlent (r : Role) (name : String) (source : Nat → Source) : Step Nat := do
  match ← unlent? r name source with
  | some i => return i
  | none => throw .inapplicable

/-- What a name stood for, which must not be on loan; the name is free again. -/
def surrender (r : Role) (name : String) (source : Nat → Source) : Step Nat := do
  let i ← unlent r name source
  modifyNames (·.erase r name)
  return i

def softSource (i : Nat) : Source := .soft (.soft i)

def scanSource (i : Nat) : Source := .soft (.scan i)

end Step

end Custody
