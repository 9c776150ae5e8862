import Custody.Block

/-! Blocks that were released but are kept, so that a stale address can be told
from a valid one. They are listed, the latest first, with their number and total
size. While detection is on, the range of each block that comes in is also
recorded; one look-up of the last range that starts at or before an address
decides whether the address lies in a recorded block. -/

namespace Custody

/-- Ranges of addresses by their start, in descending order of start. -/
structure RangeIndex where
  ranges : List (Nat × Nat)
  deriving DecidableEq, Repr

namespace RangeIndex

def empty : RangeIndex := ⟨[]⟩

/-- Puts a range in its place, instead of an earlier one with the same start. -/
def insertRange (start size : Nat) : List (Nat × Nat) → List (Nat × Nat)
  | [] => [(start, size)]
  | r :: rest =>
    if r.1 < start then (start, size) :: r :: rest
    else if r.1 = start then (start, size) :: rest
    else r :: insertRange start size rest

def insert (x : RangeIndex) (start size : Nat) : RangeIndex :=
  ⟨insertRange start size x.ranges⟩

/-- The last range that starts at or before an address. -/
def floor? (x : RangeIndex) (address : Nat) : Option (Nat × Nat) :=
  x.ranges.find? fun r => r.1 ≤ address

def size (x : RangeIndex) : Nat := x.ranges.length

end RangeIndex

structure Quarantine where
  /-- The blocks kept, the latest first. -/
  blocks : List Block
  count : Nat
  bytes : Nat
  detecting : Bool
  index : RangeIndex
  deriving DecidableEq, Repr

namespace Quarantine

def empty (detecting : Bool) : Quarantine := ⟨[], 0, 0, detecting, .empty⟩

def push (q : Quarantine) (b : Block) : Quarantine where
  blocks := b :: q.blocks
  count := q.count + 1
  bytes := q.bytes + b.size
  detecting := q.detecting
  index := if q.detecting then q.index.insert b.base b.size else q.index

/-- Whether an address lies in no recorded block. -/
def isClear (q : Quarantine) (address : Nat) : Bool :=
  match q.index.floor? address with
  | some (start, size) => start + size ≤ address
  | none => true

/-- Lets every block go: the blocks handed back, and what is left. -/
def reclaim (q : Quarantine) : List Block × Quarantine := (q.blocks, empty q.detecting)

/-- Switches detection; the former setting. Refused while ranges are recorded. -/
def setDetecting (q : Quarantine) (on : Bool) : Except HeapRefusal (Bool × Quarantine) :=
  if q.index.size = 0 then .ok (q.detecting, { q with detecting := on })
  else .error (.detectionPinned q.index.size)

/-- The byte at an address of a kept block, where it is known. A block's header
links to the block that was released before it. -/
def byteIn (address : Nat) : List Block → Option UInt8
  | [] => none
  | b :: rest =>
    if b.covers address then b.byte? ((rest.head?.map Block.base).getD 0) (address - b.base)
    else byteIn address rest

def byte? (q : Quarantine) (address : Nat) : Option UInt8 := byteIn address q.blocks

end Quarantine

end Custody
