import Custody.Error
import Custody.Ticket

/-! The observers registered with one allocation. Each holds a slot; a free slot
names the next free one, so the free slots form a list threaded through the
table. Releasing a slot puts it at the head of that list under its next
generation; a slot that has used up its generations is retired for good. The
table grows by a factor when no slot is free, and never shrinks.

Slots that were never used are not stored: they follow the stored ones, in order,
each naming the next. -/

namespace Custody

/-- What a registered observer is told about its object. -/
inductive Standing where
  | live
  /-- The owner has gone. -/
  | gone
  deriving DecidableEq, Repr

def Standing.label : Standing → String
  | .live => "Live"
  | .gone => "Invalidated"

inductive Slot where
  | free (next : Option Nat) (generation : UInt32)
  | used (generation : UInt32) (standing : Standing)
  | retired
  deriving DecidableEq, Repr

structure SlotTable where
  /-- The slots used at least once. -/
  stored : Array Slot
  /-- How many slots there are, the ones never used included. -/
  capacity : Nat
  /-- The head of the free list. -/
  firstFree : Option Nat
  /-- How many slots are used. -/
  count : Nat
  growth : UInt64
  /-- The largest capacity that growth may reach. -/
  cap : UInt32
  /-- The largest storage, in bytes, that growth is granted. -/
  grant : Nat
  deriving DecidableEq, Repr

namespace SlotTable

/-- The slots that every table starts with. -/
def initial : Nat := 5

/-- Storage of one slot, in bytes. -/
def slotBytes : Nat := 12

def empty (growth : UInt64) (cap : UInt32) (grant : Nat) : SlotTable :=
  ⟨#[], initial, some 0, 0, growth, cap, grant⟩

/-- Slot `i`, whether it is stored or was never used. -/
def slot? (t : SlotTable) (i : Nat) : Option Slot :=
  if i < t.stored.size then t.stored[i]?
  else if i < t.capacity then some (.free (if i + 1 < t.capacity then some (i + 1) else none) 0)
  else none

/-- Writes slot `i`, a stored one or the first that was never used. -/
def write (t : SlotTable) (i : Nat) (s : Slot) : SlotTable :=
  if i < t.stored.size then { t with stored := t.stored.setIfInBounds i s }
  else { t with stored := t.stored.push s }

/-- The capacity after growth: the present one times the factor, a machine word at
most, but at least one more and at most the cap. -/
def target (t : SlotTable) : Nat :=
  min (max (min (t.capacity * t.growth.toNat) 18446744073709551615) (t.capacity + 1)) t.cap.toNat

def grow (t : SlotTable) : Except HeapRefusal SlotTable :=
  if t.cap.toNat ≤ t.capacity then .error (.slotsExhausted t.capacity)
  else if t.grant < t.target * slotBytes then .error (.slotsExhausted t.capacity)
  else .ok { t with capacity := t.target, firstFree := some t.capacity }

/-- The table, grown if no slot is free. -/
def reserve (t : SlotTable) : Except HeapRefusal SlotTable :=
  if t.firstFree.isNone then t.grow else .ok t

/-- The ticket of the slot at the head of the free list. -/
def headTicket (t : SlotTable) : Except HeapRefusal Ticket :=
  match t.firstFree with
  | none => .error (.slotsExhausted t.capacity)
  | some i =>
    match t.slot? i with
    | some (.free _ generation) => .ok ⟨UInt32.ofNat i, generation⟩
    | _ => .error (.slotsExhausted t.capacity)

/-- The ticket that the next observer gets. -/
def nextTicket (t : SlotTable) : Except HeapRefusal Ticket := t.reserve.bind headTicket

/-- Gives the slot at the head of the free list to an observer, if there is one. -/
def takeFree (t : SlotTable) (s : Standing) : SlotTable :=
  match t.firstFree with
  | none => t
  | some i =>
    match t.slot? i with
    | some (.free next generation) =>
      let t := t.write i (.used generation s)
      { t with firstFree := next, count := t.count + 1 }
    | _ => t

/-- Registers an observer, growing the table if no slot is free; a table without
room stays as it is. -/
def enrol (t : SlotTable) (s : Standing) : SlotTable :=
  match t.reserve with
  | .ok t => t.takeFree s
  | .error _ => t

/-- Registers an observer, if there is room: its ticket. -/
def insert (t : SlotTable) (s : Standing) : Except HeapRefusal (Ticket × SlotTable) :=
  t.nextTicket.map fun k => (k, t.enrol s)

/-- Whether a ticket is the one of the slot's present occupant. -/
def find? (t : SlotTable) (k : Ticket) : Option Standing :=
  match t.slot? k.index.toNat with
  | some (.used generation s) => if generation = k.generation then some s else none
  | _ => none

def isLive (t : SlotTable) (k : Ticket) : Bool := t.find? k = some .live

/-- Releases the slot of a ticket; whether the ticket was a present one. -/
def remove (t : SlotTable) (k : Ticket) : Bool × SlotTable :=
  if (t.find? k).isSome then
    let generation := k.generation + 1
    if generation = 0 then
      let t := t.write k.index.toNat .retired
      (true, { t with count := t.count - 1 })
    else
      let next := t.firstFree
      let t := t.write k.index.toNat (.free next generation)
      (true, { t with firstFree := some k.index.toNat, count := t.count - 1 })
  else (false, t)

/-- The ticket and standing of slot `i`, if an observer holds it. -/
def entryAt (i : Nat) : Slot → Option (Ticket × Standing)
  | .used generation s => some (⟨UInt32.ofNat i, generation⟩, s)
  | _ => none

/-- The registered observers by slot index. -/
def entries (t : SlotTable) : List (Ticket × Standing) :=
  (t.stored.toList.zipIdx).filterMap fun p => entryAt p.2 p.1

/-- Changes the standing of every registered observer by `f`. -/
def update (t : SlotTable) (f : Ticket → Standing → Standing) : SlotTable :=
  { t with stored := t.stored.mapIdx fun i slot =>
      match slot with
      | .used generation s => .used generation (f ⟨UInt32.ofNat i, generation⟩ s)
      | other => other }

/-- How many registered observers are live. -/
def liveCount (t : SlotTable) : Nat := (t.entries.filter fun e => e.2 = .live).length

/-- Tells every observer that the owner has gone; how many were live. -/
def dismissAll (t : SlotTable) : Nat × SlotTable :=
  (t.liveCount, t.update fun _ _ => .gone)

/-- Whether the table has outgrown the slots it started with. -/
def hasGrown (t : SlotTable) : Bool := initial < t.capacity

/-- Whether a slot is one of those that every table starts with. -/
def isInitial (i : UInt32) : Bool := i.toNat < initial

end SlotTable

end Custody
