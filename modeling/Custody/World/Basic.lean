import Custody.Heap.Basic
import Custody.Object.Record
import Custody.Object.Traversal

/-! The state of a run: heaps, the records of all allocations, the handles that the
program holds, and the destruction still to be done.

A handle is in exactly one of these places: a variable of the program, an element
of an object that is there, or a pending task. A variable that was dropped keeps
its place, empty. -/

namespace Custody

/-- A variable that holds an observing handle. -/
inductive SoftPlace where
  | soft (i : Nat)
  /-- The array handle of a scan. -/
  | scan (i : Nat)
  /-- The node handle of a walk. -/
  | node (i : Nat)
  /-- The bucket array handle of a walk. -/
  | buckets (i : Nat)
  deriving DecidableEq, Repr

/-- Whether handles may be moved in and out of a place. The handles of positions in
arrays stay where they are, since the position is measured against them. -/
def SoftPlace.isLoose : SoftPlace → Bool
  | .soft _ | .node _ => true
  | .scan _ | .buckets _ => false

/-- The handle through which an object is borrowed. -/
inductive Source where
  | owner (i : Nat)
  | soft (p : SoftPlace)
  deriving DecidableEq, Repr

/-- A borrow of an object, held until it is released. -/
structure Guard where
  record : RecordId
  access : Access
  source : Source
  part : Part
  deriving DecidableEq, Repr

/-- A raw block in the hands of the program, and the heap that it came from. -/
structure Loose where
  heap : HeapId
  block : Block
  deriving DecidableEq, Repr

/-- What destruction has still to do. -/
inductive Task where
  | dropOwner (o : Owner)
  | dropSoft (s : Soft)
  | dropItem (i : Item)
  /-- Observers learn that the object is gone, and its block is released. -/
  | retire (r : RecordId)
  /-- One handle fewer refers to the record. -/
  | forget (r : RecordId)
  /-- The block of an array that was never finished goes back. -/
  | abandon (h : HeapId) (b : Block)
  deriving DecidableEq, Repr

/-- What finalizers report. -/
inductive Event where
  | dropped (value : Int64)
  /-- What a finalizer saw of the node observed: its number or why it could not be
  read, whether the handle was valid, and whether a copy of the handle was null and
  was valid, if it could be copied. -/
  | probed (value : Int64) (seen : Except AccessRefusal Int64) (valid : Bool)
      (copy : Option (Bool × Bool))

structure World where
  arena : Arena
  heaps : Array Heap
  records : Array Record
  owners : Array Owner
  softs : Array Soft
  scans : Array Scan
  walks : Array Walk
  /-- The guards in force with their numbers, the latest first. -/
  guards : List (Nat × Guard)
  /-- The number of the next guard. -/
  nextGuard : Nat
  blocks : Array (Option Loose)
  /-- Destruction under way, the next task first. -/
  pending : List Task
  /-- The panic that is unwinding, if any: the first one raised. -/
  unwinding : Option Panic
  /-- Reports of finalizers, the latest first. -/
  log : List Event

namespace World

/-- The largest request that the arena grants by default. -/
def defaultGrant : Nat := 1073741824

/-- Only the default heap, which is heap 0. -/
def start (grant : Nat) : World where
  arena := .fresh grant
  heaps := #[.fresh .standard]
  records := #[]
  owners := #[]
  softs := #[]
  scans := #[]
  walks := #[]
  guards := []
  nextGuard := 0
  blocks := #[]
  pending := []
  unwinding := none
  log := []

instance : Inhabited World := ⟨start defaultGrant⟩

/-- The heap that is used where none is named. -/
def currentHeap : HeapId := 0

def modifyHeap (w : World) (h : HeapId) (f : Heap → Heap) : World :=
  { w with heaps := w.heaps.modify h f }

def modifyRecord (w : World) (r : RecordId) (f : Record → Record) : World :=
  { w with records := w.records.modify r f }

/-- The heap of a record counts a registration, if a ticket was given for it. -/
def noteRegistered (w : World) (r : RecordId) (t : Option Ticket) : World :=
  match w.records[r]? with
  | none => w
  | some rec => if t.isSome then w.modifyHeap rec.heap (·.noteRegistered) else w

/-! ### Handles in variables -/

def owner? (w : World) (i : Nat) : Option Owner := w.owners[i]?

/-- What an owner variable holds; nothing if there is no such variable. -/
def owner (w : World) (i : Nat) : Owner := (w.owner? i).getD none

def setOwner (w : World) (i : Nat) (o : Owner) : World :=
  { w with owners := w.owners.setIfInBounds i o }

def soft? (w : World) : SoftPlace → Option Soft
  | .soft i => w.softs[i]?
  | .scan i => w.scans[i]?.map Scan.array
  | .node i => w.walks[i]?.map Walk.node
  | .buckets i => w.walks[i]?.map fun k => k.buckets.array

/-- What an observing variable holds; nothing if there is no such variable. -/
def soft (w : World) (p : SoftPlace) : Soft := (w.soft? p).getD none

def setSoft (w : World) : SoftPlace → Soft → World
  | .soft i, s => { w with softs := w.softs.setIfInBounds i s }
  | .scan i, s => { w with scans := w.scans.modify i fun c => { c with array := s } }
  | .node i, s => { w with walks := w.walks.modify i fun k => { k with node := s } }
  | .buckets i, s =>
    { w with walks :=
      w.walks.modify i fun k => { k with buckets := { k.buckets with array := s } } }

/-- Leaves an observing variable empty; a position goes back to the empty range. -/
def vacate (w : World) : SoftPlace → World
  | .scan i => { w with scans := w.scans.modify i fun _ => ⟨none, .origin⟩ }
  | .buckets i =>
    { w with walks := w.walks.modify i fun k => { k with buckets := ⟨none, .origin⟩ } }
  | p => w.setSoft p none

/-- Whether a guard still borrows through a handle. -/
def isLent (w : World) (s : Source) : Bool := w.guards.any fun g => g.2.source = s

/-! ### What handles see -/

/-- Whether the object of a record is alive. -/
def isAlive (w : World) (r : RecordId) : Bool := w.records[r]?.any Record.isAlive

/-- The record that an owner holds. -/
def held (o : Owner) : Except AccessRefusal RecordId :=
  match o with
  | some r => .ok r
  | none => .error .null

/-- The record that an observing handle may look at: the handle must watch
something, its ticket must be live, and the object must be alive. -/
def watched (w : World) : Soft → Except AccessRefusal RecordId
  | none => .error .null
  | some k =>
    match w.records[k.record]? with
    | none => .error .gone
    | some r =>
      if !r.vouches k.ticket then .error .gone
      else if !r.isAlive then .error .gone
      else .ok k.record

def isValid (w : World) (s : Soft) : Bool := (w.watched s).isOk

/-- The object of a record, if it can be borrowed now. -/
def open? (w : World) (r : RecordId) (a : Access) : Except AccessRefusal (List Item) :=
  match w.records[r]? with
  | some rec => rec.open? a
  | none => .error .gone

/-- The record that a handle in a variable leads to. -/
def reach (w : World) : Source → Except AccessRefusal RecordId
  | .owner i => held (w.owner i)
  | .soft p => w.watched (w.soft p)

/-- The record and the object that a handle leads to, if the object can be
borrowed now. -/
def inspect (w : World) (s : Source) (a : Access) :
    Except AccessRefusal (RecordId × List Item) := do
  let r ← w.reach s
  let items ← w.open? r a
  return (r, items)

/-- How many elements a record's range has; known also when the object is gone. -/
def rangeLength (w : World) (r : Option RecordId) : Nat :=
  match r with
  | none => 0
  | some r => (w.records[r]?.map Record.length).getD 0

/-- A position in the range that a handle watches. -/
def positionIn (w : World) (s : Soft) (i : UInt64) : Position :=
  .clamped i (UInt64.ofNat (w.rangeLength (s.map Watch.record)))

/-- Whether two observing handles watch the same allocation. -/
def sameTarget (s t : Soft) : Bool :=
  match s, t with
  | some a, some b => a.record = b.record
  | _, _ => false

/-- Whether two observing handles are equal: both watch nothing, or both watch the
same allocation. -/
def sameSoft (s t : Soft) : Bool := (s.isNone && t.isNone) || sameTarget s t

/-- The object's address, if the handle may look at it. -/
def softAddress? (w : World) (s : Soft) : Option Nat :=
  match w.watched s with
  | .ok r => w.records[r]?.bind Record.address?
  | .error _ => none

/-- The address of an owner's object. -/
def ownerAddress (w : World) (o : Owner) : Except AccessRefusal Nat := do
  let r ← held o
  match w.records[r]?.bind Record.address? with
  | some a => .ok a
  | none => .error .gone

/-- The identifier of an allocation. -/
def identifier (r : RecordId) : Nat := r + 1

end World

end Custody
