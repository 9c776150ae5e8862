import Custody.World.Basic

/-! Destruction. Dropping an owner takes its object out of the record, destroys the
object's elements in order, then tells the observers and releases the block.
Destruction runs as a list of tasks: one `tick` does the first task and may put
further ones before the rest, so every moment of a destructor is a state of its
own. A panic does not change what is done: it is noted, and the same tasks follow.

Main definitions: `tick`, one task; `drain`, all of them. -/

namespace Custody

namespace World

/-- A panic begins to unwind, unless one is unwinding already. -/
def raise (w : World) (p : Panic) : World :=
  if w.unwinding.isSome then w else { w with unwinding := some p }

def schedule (w : World) (tasks : List Task) : World := { w with pending := tasks ++ w.pending }

/-- Tells every observer of a record that its owner has gone. -/
def invalidate (w : World) (r : RecordId) : World :=
  match w.records[r]? with
  | none => w
  | some rec =>
    let (n, slots) := rec.slots.dismissAll
    (w.modifyRecord r fun rec => { rec with slots := slots }).modifyHeap rec.heap
      (·.noteInvalidated n)

/-- Gives a record's block back to its heap, to be kept if the record is tracked. -/
def returnBlock (w : World) (r : RecordId) : World :=
  match w.records[r]? with
  | none => w
  | some rec =>
    match rec.block with
    | none => w
    | some b =>
      (w.modifyRecord r fun rec => { rec with block := none }).modifyHeap rec.heap
        (·.release b rec.kind.mode.isTracked)

/-- Starts to destroy the object of a record, if it is there. Its bytes stay in
the block. -/
def demolish (w : World) (r : RecordId) : World :=
  match w.records[r]? with
  | none => w
  | some rec =>
    match rec.object with
    | none => w
    | some items =>
      (w.modifyRecord r fun rec =>
        { rec with
          object := none
          block := rec.block.map fun b => { b with contents := Item.image items } }).schedule
        (items.map .dropItem ++ [.retire r])

/-- Whether a record's object is borrowed. -/
def isBorrowed (w : World) (r : RecordId) : Bool := w.records[r]?.any fun rec => rec.borrow.isHeld

/-- The owner goes away while the object is borrowed: its observers learn it at
once, and the object stays until the last handle is gone. -/
def orphan (w : World) (r : RecordId) : World :=
  if w.records[r]?.any Record.orphaned then w
  else (w.modifyRecord r fun rec => { rec with orphaned := true }).invalidate r

/-- An owning handle goes away. -/
def dropOwner (w : World) : Owner → World
  | none => w
  | some r =>
    let w := w.schedule [.forget r]
    if w.isBorrowed r then (w.orphan r).raise (.fatal (.access .destroyedWhileBorrowed))
    else w.demolish r

/-- An observing handle goes away: it gives up its ticket first. -/
def dropSoft (w : World) : Soft → World
  | none => w
  | some k =>
    (w.modifyRecord k.record fun rec => rec.deregister k.ticket).schedule [.forget k.record]

/-- One handle fewer refers to a record. When the last one goes, an object that is
still there is destroyed. -/
def forget (w : World) (r : RecordId) : World :=
  let w := w.modifyRecord r fun rec => { rec with handles := rec.handles - 1 }
  if w.records[r]?.any (fun rec => rec.handles = 0 && !rec.borrow.isHeld) then w.demolish r else w

/-- A finalizer copies an observing handle, looks at the copy and drops it. The
copy is not the last handle of its record. -/
def copyBriefly (w : World) : Soft → Option (Bool × Bool) × World
  | none => (some (true, false), w)
  | some k =>
    match w.records[k.record]? with
    | none => (none, w)
    | some rec =>
      match rec.nextTicket with
      | .error _ => (none, w)
      | .ok ticket =>
        let during := w.modifyRecord k.record Record.enrol
        let valid := during.isValid (some ⟨k.record, ticket⟩)
        let after := during.modifyRecord k.record fun rec => rec.deregister ticket
        (some (false, valid), after.noteRegistered k.record ticket)

/-- The number of the node that an observing handle leads to. -/
def peekNumber (w : World) (s : Soft) : Except AccessRefusal Int64 := do
  let r ← w.watched s
  let items ← w.open? r .shared
  match items with
  | i :: _ => .ok i.value
  | [] => .error .gone

/-- A node's finalizer: it reports the node, looks at the node observed if it is
set to, and gives up at its end if it is set to. -/
def finalize (w : World) (value : Int64) (f : Finalizer) (prev : Soft) : World :=
  let w := { w with log := .dropped value :: w.log }
  let w :=
    if f.probes then
      let seen := w.peekNumber prev
      let (copy, w) := w.copyBriefly prev
      { w with log := .probed value seen (w.isValid prev) copy :: w.log }
    else w
  if f.panics then w.raise (.finalizer value.toInt) else w

/-- An element is destroyed: its finalizer runs, then the handles in it go. -/
def dropItem (w : World) : Item → World
  | .node value f next prev =>
    (w.finalize value f prev).schedule [.dropOwner next, .dropSoft prev]
  | .bucket head => w.schedule [.dropOwner head]
  | .entry key next => { w with log := .dropped key :: w.log }.schedule [.dropOwner next]
  | _ => w

def perform (w : World) : Task → World
  | .dropOwner o => w.dropOwner o
  | .dropSoft s => w.dropSoft s
  | .dropItem i => w.dropItem i
  | .retire r => (w.invalidate r).returnBlock r
  | .forget r => w.forget r
  | .abandon h b => w.modifyHeap h (·.release b false)

/-- The first pending task is done. -/
def tick (w : World) : World :=
  match w.pending with
  | [] => w
  | t :: rest => { w with pending := rest }.perform t

/-! ### How long destruction can go on

Every tick makes `load` smaller: it removes a task and adds lighter ones, or it
moves an object out of its record, where it weighed as much as the tasks that it
becomes. -/

/-- The load of destroying an element: more than that of its handles. -/
def itemLoad : Nat := 9

def objectLoad (r : Record) : Nat :=
  match r.object with
  | some items => itemLoad * items.length
  | none => 0

def taskLoad : Task → Nat
  | .dropOwner _ => 4
  | .dropSoft _ => 4
  | .dropItem _ => itemLoad
  | .retire _ => 1
  | .forget _ => 2
  | .abandon .. => 1

def load (w : World) : Nat :=
  w.pending.foldl (fun n t => n + taskLoad t) 0 + w.records.foldl (fun n r => n + objectLoad r) 0

/-- `n` ticks at most. -/
def drainFor : Nat → World → World
  | 0, w => w
  | n + 1, w => if w.pending.isEmpty then w else drainFor n w.tick

/-- Ticks until nothing is pending. Most destruction is short: the load is weighed only
after some ticks. -/
def drain (w : World) : World :=
  let v := drainFor 256 w
  if v.pending.isEmpty then v else drainFor v.load v

end World

end Custody
