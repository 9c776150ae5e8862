import Custody.Borrow
import Custody.Object.Item
import Custody.SlotTable

/-! The record of an allocation. It outlives the object: as long as any handle is
left it still tells whether the object is alive, and still holds the slots of the
observers. -/

namespace Custody

abbrev HeapId := Nat

structure Record where
  heap : HeapId
  kind : Kind
  /-- How many elements the object has or had. -/
  length : Nat
  /-- The block, until it is released. -/
  block : Option Block
  borrow : Borrow
  slots : SlotTable
  /-- The object, until its destruction starts. -/
  object : Option (List Item)
  /-- The owner went away while the object was borrowed. -/
  orphaned : Bool
  /-- How many handles refer to the record. -/
  handles : Nat
  deriving DecidableEq, Repr

namespace Record

/-- Whether the object is there and has its owner. -/
def isAlive (r : Record) : Bool := !r.orphaned && r.object.isSome

/-- The object, if it is alive. -/
def alive (r : Record) : Except AccessRefusal (List Item) :=
  if r.orphaned then .error .gone
  else match r.object with
    | some items => .ok items
    | none => .error .gone

/-- The object, if it can be borrowed now. -/
def open? (r : Record) (a : Access) : Except AccessRefusal (List Item) := do
  let items ← r.alive
  let _ ← r.borrow.take a
  return items

/-- What an observer that is registered now is told about the object. -/
def standing (r : Record) : Standing := if r.isAlive then .live else .gone

/-- The ticket that the next observer gets. Observers of an untracked allocation need
none. -/
def nextTicket (r : Record) : Except HeapRefusal (Option Ticket) :=
  if r.kind.mode.isTracked then r.slots.nextTicket.map some else .ok none

/-- Registers an observer under the next ticket. -/
def enrol (r : Record) : Record :=
  if r.kind.mode.isTracked then
    let s := r.standing
    { r with slots := r.slots.enrol s }
  else r

/-- One handle more refers to the record. -/
def acquire (r : Record) : Record := { r with handles := r.handles + 1 }

/-- Gives up a ticket. -/
def deregister (r : Record) : Option Ticket → Record
  | some t => { r with slots := (r.slots.remove t).2 }
  | none => r

/-- Whether the ticket of an observer, if it has one, still says that the object
is alive. -/
def vouches (r : Record) : Option Ticket → Bool
  | some t => r.slots.isLive t
  | none => true

/-- The address of the object while it is there. -/
def address? (r : Record) : Option Nat :=
  if r.object.isSome then r.block.map Block.payload else none

/-- Whether an address lies in the payload, until the block is released. -/
def contains (r : Record) (address : Nat) : Bool :=
  match r.block with
  | some b => b.contains address
  | none => false

end Record

end Custody
