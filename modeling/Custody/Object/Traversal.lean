import Custody.Object.Item
import Custody.Position

/-! Positions in objects, each with the observing handle that it goes through. -/

namespace Custody

/-- A position in an array or row. -/
structure Scan where
  array : Soft
  position : Position
  deriving DecidableEq, Repr

/-- A position in a chained table: a node, and the bucket whose chain it is in. At
the end there is no node. -/
structure Walk where
  node : Soft
  buckets : Scan
  deriving DecidableEq, Repr

/-- The part of an object that a guard is narrowed to. -/
inductive Part where
  | whole
  | element (i : Nat)
  /-- The number in an element. -/
  | number (i : Nat)
  deriving DecidableEq, Repr

end Custody
