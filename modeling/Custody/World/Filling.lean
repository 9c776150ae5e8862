import Custody.World.Program

/-! Arrays whose elements are built by a program. The initialiser is called for one
index after the other, and may do to the world what any program may; each element goes
into its place as soon as it is built. If the initialiser gives up, the places written so
far are cleared and the block goes back unkept. Building from a plan is the case of an
initialiser that only looks its elements up. -/

namespace Custody

/-- What builds the element at an index, unless it gives up. -/
abbrev Initializer := Nat → Act (Except Panic Item)

/-- An array that is being filled: its places, and how many were written. -/
structure Filling where
  places : List (Option Item)
  written : Nat
  deriving DecidableEq, Repr

namespace Filling

def blank (n : Nat) : Filling := ⟨List.replicate n none, 0⟩

/-- Writes the next place. -/
def write (f : Filling) (i : Item) : Filling := ⟨f.places.set f.written (some i), f.written + 1⟩

/-- The elements in the places that were written. A place that is counted but was not
written would pass for an element. -/
def items (f : Filling) : List Item := (f.places.take f.written).map (·.getD .unit)

/-- Fills the places that are left; the panic with which the initialiser gave up, if it
did. -/
def fill (init : Initializer) (f : Filling) : Act (Option Panic × Filling) :=
  if f.written < f.places.length then do
    match ← init f.written with
    | .error p => return (some p, f)
    | .ok i => fill init (f.write i)
  else return (none, f)
termination_by f.places.length - f.written
decreasing_by
  simp only [write, List.length_set]
  omega

end Filling

namespace World

/-- Builds an array of `n` elements of a layout. -/
def assemble (w : World) (h : HeapId) (k : Kind) (element : Layout) (n : Nat) (init : Initializer) :
    Except HeapRefusal Nat × World :=
  w.buildBy h k (element.array n) n fun u =>
    let ((stopped, f), v) := ((Filling.blank n).fill init).run u
    ((stopped, f.items), v)

end World

/-- The initialiser of a plan. -/
def Plan.initializer (p : Plan) : Initializer := fun i =>
  return if p.stop = some i then .error (.builder i) else .ok (p.seed i).item

end Custody
