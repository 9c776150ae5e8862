import Custody.Handle.Range

/-! Positions in arrays and rows. A scan goes through an observing handle of its
own; its position is measured against the length that the range had from the start,
which never changes. Reading checks that the range is alive and can be borrowed,
and then the position. Comparing scans of different ranges is refused. -/

namespace Custody

/-- Which element of a scan is meant. -/
inductive Aim where
  | here
  | away (n : Int64)
  deriving DecidableEq, Repr

/-- The index aimed at, in a range of the length seen now. -/
def Position.aim (p : Position) (length : Nat) : Aim → Except AccessRefusal UInt64
  | .here => (clamped p.index (UInt64.ofNat length)).here
  | .away n => (clamped p.index (UInt64.ofNat length)).away n

namespace Scan

def isNull (s : Scan) : Bool := s.array.isNone

/-- Refused unless both scans go through the same range, or both through none. -/
def comparable (s t : Scan) : Except AccessRefusal Unit :=
  if World.sameTarget s.array t.array || (s.isNull && t.isNull) then .ok ()
  else .error .unrelated

/-- `s - t`, in elements. -/
def distance (s t : Scan) : Except Fault Int64 :=
  match s.comparable t with
  | .error e => .error (.refused (.access e))
  | .ok () =>
    match s.position.distance t.position with
    | .error p => .error (.panicked p)
    | .ok n => .ok n

/-- Whether two scans of one range are at the same place. A scan of nothing equals
nothing. -/
def same (s t : Scan) : Except AccessRefusal Bool :=
  if s.isNull || t.isNull then .ok false
  else (s.comparable t).map fun _ => s.position.index = t.position.index

/-- The order of two scans of one range. -/
def order (s t : Scan) : Except AccessRefusal Ordering :=
  if s.isNull || t.isNull then .error .null
  else (s.comparable t).map fun _ => compare s.position.index.toNat t.position.index.toNat

/-- The order of two scans as far as there is one: none if either is of nothing. -/
def order? (s t : Scan) : Except AccessRefusal (Option Ordering) :=
  match s.order t with
  | .ok o => .ok (some o)
  | .error .null => .ok none
  | .error e => .error e

def describe (s : Scan) : String :=
  Text.fields "ArrayIter"
    [("index", toString s.position.index.toNat), ("len", toString s.position.length.toNat),
     ("null", Text.flag s.isNull)]

end Scan

namespace World

def scan (w : World) (i : Nat) : Scan := (w.scans[i]?).getD ⟨none, .origin⟩

/-- The element that a scan aims at, if it can be read now. -/
def scanned (w : World) (i : Nat) (a : Aim) : Except AccessRefusal Item := do
  let (_, items) ← w.inspect (.soft (.scan i)) .shared
  let index ← (w.scan i).position.aim items.length a
  elementAt items index

/-- The elements at a scan and after it, if they can be read now. -/
def elementsFrom (w : World) (i : Nat) : Except AccessRefusal (List Item) := do
  let (_, items) ← w.inspect (.soft (.scan i)) .shared
  return items.drop (w.scan i).position.index.toNat

/-- Whether a scan is usable: its range can be read, and its position is in it. -/
def checkScan (w : World) (i : Nat) : Except AccessRefusal Unit := do
  let (_, items) ← w.inspect (.soft (.scan i)) .shared
  let index := (w.scan i).position.index
  if items.length < index.toNat then throw (.outOfRange index.toNat items.length)

end World

namespace Op

/-- A new scan of what a handle watches, at an index or at the end before it. -/
def openScan (s : Soft) (i : UInt64) : Op Nat :=
  inManner .insist (granted (Act.newScan (s.map Watch.record) i))

/-- A new scan at the same place. -/
def copyScan (i : Nat) : Op Nat := do
  let s ← look (·.scan i)
  openScan s.array s.position.index

def moveScan (i : Nat) (m : Position.Move) : Op Unit := act (.moveScan i m)

def dropScan (i : Nat) : Op Unit := dropSoft (.scan i)

def readScan (m : Manner) (i : Nat) (a : Aim) : Op Item :=
  inManner m (inspect (·.scanned i a))

/-- A guard on the element that a scan aims at. -/
def lendScanned (a : Access) (i : Nat) (aim : Aim) : Op Nat := do
  let g ← permitted (Act.lend (.soft (.scan i)) a)
  let items ← look (·.guarded g)
  match (← look (·.scan i)).position.aim items.length aim with
  | .ok index => do
    act (.narrow g index.toNat)
    return g
  | .error e => do
    act (.endBorrow g)
    throw (.refused (.access e))

def writeScan (m : Manner) (i : Nat) (v : Int) : Op Unit :=
  inManner m do
    let g ← lendScanned .exclusive i .here
    thenClean (act (.put g v)) (Act.act (.endBorrow g))

/-- The element at a scan that is used up one element at a time; none at the end.
The scan moves only if the element could be read. -/
def nextValue (i : Nat) : Op (Option Item) := do
  if (← look (·.scan i)).position.isEnd then return none
  let item ← readScan .insist i .here
  moveScan i .next
  return some item

/-- The elements from a scan on, through a scan of their own; the scan itself stays.
Their number comes first. Nothing is read if there are none. -/
def values (i : Nat) : Op (Nat × List Item) := do
  let j ← copyScan i
  let n := (← look (·.scan j)).position.remaining
  thenClean
    (if n = 0 then return (0, []) else
      return (n, ← inManner .insist (inspect (·.elementsFrom j))))
    (do
      Act.act (.discardSoft (.scan j))
      Act.drain)

end Op

end Custody
