import Custody.Handle.Soft

/-! Elements of arrays and rows, by index. Liveness and borrows are checked before
the index. Addresses of elements and indices are each other's inverse. -/

namespace Custody

/-- The element at an index, if there is one. -/
def elementAt (items : List Item) (i : UInt64) : Except AccessRefusal Item :=
  match items[i.toNat]? with
  | some item => .ok item
  | none => .error (.outOfRange i.toNat items.length)

namespace World

/-- The element of a range at an index, if it can be read now. -/
def element (w : World) (s : Source) (i : UInt64) : Except AccessRefusal Item := do
  let (_, items) ← w.inspect s .shared
  elementAt items i

/-- The record that an observing handle in a variable looks at, and the address of
its object. -/
def baseAddress (w : World) (s : Soft) : Except AccessRefusal Nat := do
  let r ← w.watched s
  match w.records[r]?.bind Record.address? with
  | some a => .ok a
  | none => .error .gone

/-- The size of a watched range's elements. -/
def elementSize (w : World) (s : Soft) : Nat :=
  match s with
  | none => 0
  | some k => (w.records[k.record]?.map fun r => r.kind.element.layout.size).getD 0

def softLength (w : World) (s : Soft) : Nat := w.rangeLength (s.map Watch.record)

/-- The number of addresses. -/
def addressSpace : Nat := 18446744073709551616

/-- The address `n` away from another one; addresses wrap around. -/
def displace (address : Nat) (n : Int) : Nat := ((address + n) % addressSpace).toNat

/-- How far an address lies from an origin: the signed word that leads from one to
the other. -/
def distance (address origin : Nat) : Int := (address - origin : Int).bmod addressSpace

/-- The address of element `i` of a range of `length` elements of some size; the index of
the end is allowed. Addresses wrap around, and none is zero. Elements without size all lie
at the base. -/
def addressIn (base : Except AccessRefusal Nat) (size length : Nat) (i : UInt64) :
    Except AccessRefusal Nat :=
  if length < i.toNat then .error (.outOfRange i.toNat length)
  else do
    let address := (← base) + i.toNat * size
    if address % addressSpace = 0 then throw .gone else return address % addressSpace

/-- The index of the element that starts at an address, in a range of `length` elements of
some size, the end included. Of elements without size only the base is known. -/
def indexIn (base : Except AccessRefusal Nat) (size length address : Nat) :
    Except AccessRefusal Nat := do
  let base ← base
  if size = 0 then
    if address = base then return 0 else throw .unrelated
  else if address < base then throw .unrelated
  else
    let i := (address - base) / size
    if (address - base) % size ≠ 0 ∨ length < i then throw .unrelated else return i

/-- The address of element `i` of the range that a handle watches. -/
def elementAddress (w : World) (s : Soft) (i : UInt64) : Except AccessRefusal Nat :=
  addressIn (w.baseAddress s) (w.elementSize s) (w.softLength s) i

/-- The index of the element of the watched range that starts at an address. -/
def elementIndex (w : World) (s : Soft) (address : Nat) : Except AccessRefusal Nat :=
  indexIn (w.baseAddress s) (w.elementSize s) (w.softLength s) address

end World

namespace Op

/-- A guard on element `i` of a range. -/
def lendElement (s : Source) (a : Access) (i : UInt64) : Op Nat := do
  let g ← permitted (Act.lend s a)
  match elementAt (← look (·.guarded g)) i with
  | .ok _ => do
    act (.narrow g i.toNat)
    return g
  | .error e => do
    act (.endBorrow g)
    throw (.refused (.access e))

/-- Does `body` with a guard on element `i` of a range. -/
def borrowingElement {α : Type} (s : Source) (a : Access) (i : UInt64) (body : Nat → Op α) :
    Op α := do
  let g ← lendElement s a i
  thenClean (body g) (Act.act (.endBorrow g))

def readElement (m : Manner) (s : Source) (i : UInt64) : Op Item :=
  inManner m (inspect (·.element s i))

def writeElement (m : Manner) (s : Source) (i : UInt64) (v : Int) : Op Unit :=
  inManner m (borrowingElement s .exclusive i fun g => act (.put g v))

end Op

end Custody
