import Custody.World.Handles

/-! Guards. A guard records a borrow of an object until it is released; the object
is changed only through a guard that borrows it exclusively. Narrowing a guard to a
part keeps its borrow. -/

namespace Custody

namespace Part

/-- Narrowing a part further: a range to an element, a single object or an element to
its number. -/
def narrow (isRange : Bool) : Part → Nat → Part
  | .whole, i => if isRange then .element i else .number 0
  | .element i, _ => .number i
  | .number i, _ => .number i

/-- Whether the number in element `i` belongs to the part. -/
def covers : Part → Nat → Bool
  | .whole, _ => true
  | .element j, i => i = j
  | .number j, i => i = j

/-- Whether all of element `i` belongs to the part. -/
def spans : Part → Nat → Bool
  | .whole, _ => true
  | .element j, i => i = j
  | .number _, _ => false

end Part

namespace World

def guard? (w : World) (g : Nat) : Option Guard := w.guards.lookup g

/-- A new guard is in force; its number. -/
def addGuard (w : World) (guard : Guard) : Nat × World :=
  let g := w.nextGuard
  (g, { w with guards := (g, guard) :: w.guards, nextGuard := g + 1 })

/-- Borrows the object that a handle leads to; the number of the new guard. -/
def lend (w : World) (s : Source) (a : Access) : Except AccessRefusal Nat × World :=
  match w.reach s with
  | .error e => (.error e, w)
  | .ok r =>
    match w.records[r]? with
    | none => (.error .gone, w)
    | some rec =>
      match rec.alive, rec.borrow.take a with
      | .error e, _ => (.error e, w)
      | _, .error e => (.error e, w)
      | .ok _, .ok borrow =>
        let (g, v) := (w.modifyRecord r fun rec => { rec with borrow := borrow }).addGuard
          ⟨r, a, s, .whole⟩
        (.ok g, v)

/-- Ends a guard's borrow. -/
def endBorrow (w : World) (g : Nat) : World :=
  match w.guard? g with
  | none => w
  | some guard =>
    let guards := w.guards.filter fun h => h.1 ≠ g
    { w.modifyRecord guard.record fun rec =>
        { rec with borrow := rec.borrow.release guard.access } with
      guards := guards }

/-- A second shared guard on the same part; the number of the new guard. -/
def duplicate (w : World) (g : Nat) : Option Nat × World :=
  match w.guard? g with
  | some ⟨r, .shared, source, part⟩ =>
    match w.records[r]?.map fun rec => rec.borrow.share with
    | some (Except.ok borrow) =>
      let (h, v) := (w.modifyRecord r fun rec => { rec with borrow := borrow }).addGuard
        ⟨r, .shared, source, part⟩
      (some h, v)
    | _ => (none, w)
  | _ => (none, w)

/-- Whether a record's object is a range of elements. -/
def isRange (w : World) (r : RecordId) : Bool := w.records[r]?.any fun rec => rec.kind.isRange

/-- Narrows a guard to a part of what it borrows. -/
def narrow (w : World) (g : Nat) (i : Nat) : World :=
  { w with guards := w.guards.map fun h =>
      if h.1 = g then (g, { h.2 with part := h.2.part.narrow (w.isRange h.2.record) i }) else h }

/-- The object that a guard borrows. -/
def guarded (w : World) (g : Nat) : List Item :=
  match w.guard? g with
  | some guard => ((w.records[guard.record]?.bind Record.object).getD [])
  | none => []

/-- The record that an exclusive guard borrows. -/
def writable? (w : World) (g : Nat) : Option Guard :=
  (w.guard? g).filter fun guard => guard.access = .exclusive

/-- Writes a number into the part that an exclusive guard borrows. -/
def put (w : World) (g : Nat) (v : Int) : World :=
  match w.writable? g with
  | none => w
  | some guard =>
    w.modifyRecord guard.record fun rec =>
      { rec with object := rec.object.map fun items =>
          items.mapIdx fun i item => if guard.part.covers i then item.set v else item }

/-- The element of a guarded object, for exchanging a handle in it. -/
def element? (w : World) (guard : Guard) (i : Nat) : Option Item :=
  if guard.part.spans i then (w.records[guard.record]?.bind Record.object).bind (·[i]?) else none

def setElement (w : World) (r : RecordId) (i : Nat) (item : Item) : World :=
  w.modifyRecord r fun rec => { rec with object := rec.object.map fun items => items.set i item }

/-- Exchanges the owner in element `i` of an exclusively guarded object with an owner
variable. -/
def exchangeLink (w : World) (g i j : Nat) : World :=
  match w.writable? g, w.owner? j with
  | some guard, some o =>
    match w.element? guard i with
    | some item =>
      if item.hasLink && !w.isLent (.owner j) then
        (w.setElement guard.record i (item.withLink o)).setOwner j item.link
      else w
    | none => w
  | _, _ => w

/-- Exchanges the observing handle in element `i` of an exclusively guarded object
with the one in a loose place. -/
def exchangeBack (w : World) (g i : Nat) (p : SoftPlace) : World :=
  match w.writable? g, w.soft? p with
  | some guard, some s =>
    match w.element? guard i with
    | some item =>
      if item.hasBack && p.isLoose && !w.isLent (.soft p) then
        (w.setElement guard.record i (item.withBack s)).setSoft p item.back
      else w
    | none => w
  | _, _ => w

/-- Destroys what the owner in element `i` of an exclusively guarded object holds,
and leaves that owner empty. Refused, with nothing changed, while that is
borrowed. -/
def resetLink (w : World) (g i : Nat) : Except AccessRefusal Unit × World :=
  match w.writable? g with
  | none => (.ok (), w)
  | some guard =>
    match w.element? guard i with
    | none => (.ok (), w)
    | some item =>
      match item.link with
      | none => (.ok (), w)
      | some r =>
        if w.isBorrowed r then (.error .destroyedWhileBorrowed, w)
        else
          (.ok (), ((w.setElement guard.record i (item.withLink none)).schedule
            [.forget r]).demolish r)

end World

end Custody
