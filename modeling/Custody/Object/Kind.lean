import Custody.Layout

/-! What an allocation holds: one element, a row of a fixed number of elements, or
an array whose length is chosen when it is built; and whether its observers are
tracked. -/

namespace Custody

/-- Whether observers hold slots and released blocks may be kept. Liveness is
known either way, from the allocation's record. -/
inductive Mode where
  | tracked
  | untracked
  deriving DecidableEq, Repr

namespace Mode

def word : Mode → String
  | .tracked => "safe"
  | .untracked => "none"

def label : Mode → String
  | .tracked => "Safe"
  | .untracked => "None"

/-- The name of the mode as a marker in a type. -/
def marker : Mode → String
  | .tracked => "Safe"
  | .untracked => "Unchecked"

def isTracked (m : Mode) : Bool := m = .tracked

end Mode

inductive Element where
  | unit
  | int
  | byte
  /-- A list node: a value, the node it owns and the node it observes. -/
  | node
  /-- The owner of a chain of entries. -/
  | bucket
  /-- A chained entry: a key and the entry it owns. -/
  | entry
  deriving DecidableEq, Repr

def Element.layout : Element → Layout
  | .unit => ⟨0, 1⟩
  | .int => ⟨8, 8⟩
  | .byte => ⟨1, 1⟩
  | .node => ⟨48, 8⟩
  | .bucket => ⟨8, 8⟩
  | .entry => ⟨16, 8⟩

inductive Shape where
  | one
  | row (n : Nat)
  | array
  deriving DecidableEq, Repr

structure Kind where
  shape : Shape
  element : Element
  mode : Mode
  deriving DecidableEq, Repr

namespace Kind

/-- How many elements an object of this kind has; `n` are asked for. -/
def lengthOf (k : Kind) (n : Nat) : Nat :=
  match k.shape with
  | .one => 1
  | .row m => m
  | .array => n

/-- The layout of an object of `n` elements. -/
def layout (k : Kind) (n : Nat) : Option Layout := k.element.layout.array n

/-- The number of elements written into the block's header: rows count as one. -/
def recorded (k : Kind) (n : Nat) : Nat :=
  match k.shape with
  | .array => n
  | _ => 1

/-- Whether the object is a range of elements. -/
def isRange (k : Kind) : Bool := k.shape ≠ .one

/-- The kind of the entries chained in a table of this kind. -/
def entries (k : Kind) : Kind := ⟨.one, .entry, k.mode⟩

end Kind

end Custody
