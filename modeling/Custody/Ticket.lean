import Custody.Text.Fields

/-! The registration of one observer in a slot table: the index of its slot and
the generation that the slot had then. A released slot moves on to the next
generation, so an old ticket never matches a later occupant. -/

namespace Custody

structure Ticket where
  index : UInt32
  generation : UInt32
  deriving DecidableEq, Repr

namespace Ticket

def render (t : Ticket) : String := toString t.index.toNat ++ "@" ++ toString t.generation.toNat

def describe (t : Ticket) : String :=
  Text.fields "SlotId"
    [("index", toString t.index.toNat), ("generation", toString t.generation.toNat)]

/-- By index, then by generation. -/
def order (s t : Ticket) : Ordering :=
  (compare s.index.toNat t.index.toNat).then (compare s.generation.toNat t.generation.toNat)

end Ticket

end Custody
