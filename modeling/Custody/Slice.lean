import Custody.Position

/-! Slices of memory that stays in place, and positions in them. Two slices are one range
if they have the same address and the same length, whatever they hold. So a slice is told
from others by the bytes that it takes up; two that take up none may share an address. -/

namespace Custody

variable {α : Type}

/-- Elements side by side: where the first one lies, and what they are. -/
structure Slice (α : Type) where
  address : Nat
  items : List α
  deriving DecidableEq, Repr

namespace Slice

def length (s : Slice α) : UInt64 := UInt64.ofNat s.items.length

/-- The part from `first` up to `last` of a buffer at an address, whose elements have
`size` bytes each. -/
def part (address size : Nat) (items : List α) (first last : Nat) : Slice α :=
  ⟨address + size * first, (items.take last).drop first⟩

def same (s t : Slice α) : Bool := s.address = t.address && s.items.length = t.items.length

end Slice

/-- A position in a slice. -/
structure Spot (α : Type) where
  slice : Slice α
  position : Position
  deriving DecidableEq, Repr

namespace Spot

/-- The position at an index, or the end if the index lies beyond it. -/
def place (s : Slice α) (i : UInt64) : Spot α := ⟨s, .clamped i s.length⟩

def start (s : Slice α) : Spot α := place s 0

def finish (s : Slice α) : Spot α := place s s.length

def move (p : Spot α) (m : Position.Move) : Spot α := { p with position := p.position.move m }

/-- The element at an index. -/
def element (p : Spot α) (i : UInt64) : Except AccessRefusal α :=
  match p.slice.items[i.toNat]? with
  | some a => .ok a
  | none => .error (.outOfRange i.toNat p.slice.items.length)

/-- The element at the position. -/
def get (p : Spot α) : Except AccessRefusal α := p.position.here.bind p.element

/-- The element `n` away. -/
def away (p : Spot α) (n : Int64) : Except AccessRefusal α := (p.position.away n).bind p.element

/-- The elements from the position on. -/
def values (p : Spot α) : List α := p.slice.items.drop p.position.index.toNat

def isWithin (p : Spot α) (s : Slice α) : Bool :=
  p.slice.same s && p.position.index.toNat ≤ s.items.length

/-- Refused unless both positions are in the same range. -/
def comparable (p q : Spot α) : Except AccessRefusal Unit :=
  if p.slice.same q.slice then .ok () else .error .unrelated

/-- `p - q`, in elements. -/
def distance (p q : Spot α) : Except Fault Int64 :=
  match p.comparable q with
  | .error e => .error (.refused (.access e))
  | .ok () =>
    match p.position.distance q.position with
    | .error e => .error (.panicked e)
    | .ok n => .ok n

def same (p q : Spot α) : Except AccessRefusal Bool :=
  (p.comparable q).map fun _ => p.position.index = q.position.index

def order (p q : Spot α) : Except AccessRefusal Ordering :=
  (p.comparable q).map fun _ => compare p.position.index.toNat q.position.index.toNat

def describe (render : α → String) (p : Spot α) : String :=
  Text.fields "StackIter"
    [("items", Text.bracketed (p.slice.items.map render)), ("cursor", p.position.describe)]

end Spot

end Custody
