import Custody.World.Construction
import Custody.World.Guards

/-! Every way in which the world changes, as data. A run is a list of actions, from
the first state on; doing the next pending task is an action like any other, so the
states inside a destructor are reached like any other. Main definitions:
`Action.run`, `Reaches`, `Reachable`. -/

namespace Custody

inductive Action where
  | openHeap (config : Config)
  | allot (heap : HeapId) (payload : Layout) (elements : Nat)
  | fill (block : Nat) (byte : UInt8)
  /-- Gives a raw block to a heap, not necessarily the one that it came from. -/
  | giveBack (block : Nat) (heap : HeapId)
  | reclaim (heap : HeapId)
  | setDetecting (heap : HeapId) (on : Bool)
  | newOwner
  | newSoft
  | newScan (array : Option RecordId) (index : UInt64)
  | newWalk (table : Option RecordId) (index : UInt64)
  | construct (heap : HeapId) (kind : Kind) (plan : Plan)
  | scrap (seed : Seed)
  | scrapNode (number : Int64) (finalizer : Finalizer) (next : Nat) (prev : SoftPlace)
  | attach (record : RecordId) (place : SoftPlace)
  | swapOwners (i j : Nat)
  | swapSofts (p q : SoftPlace)
  | discardOwner (i : Nat)
  | discardSoft (p : SoftPlace)
  | resetOwner (i : Nat)
  | resetLink (guard element : Nat)
  | lend (source : Source) (access : Access)
  | duplicate (guard : Nat)
  | narrow (guard element : Nat)
  | endBorrow (guard : Nat)
  | put (guard : Nat) (value : Int)
  | exchangeLink (guard element owner : Nat)
  | exchangeBack (guard element : Nat) (place : SoftPlace)
  | moveScan (i : Nat) (move : Position.Move)
  | moveWalk (i : Nat) (move : Position.Move)
  | raise (panic : Panic)
  /-- Ends the unwinding, once nothing is pending. -/
  | recover
  | clearLog
  | tick

namespace World

def openHeap (w : World) (c : Config) : Except ConfigRefusal HeapId × World :=
  match Heap.open? c with
  | .error e => (.error e, w)
  | .ok h => (.ok w.heaps.size, { w with heaps := w.heaps.push h })

/-- A raw block for the program; its number. -/
def allot (w : World) (h : HeapId) (payload : Layout) (elements : Nat) :
    Except HeapRefusal Nat × World :=
  match w.allocate h payload elements with
  | .error e => (.error e, w)
  | .ok (b, v) => (.ok v.blocks.size, { v with blocks := v.blocks.push (some ⟨h, b⟩) })

def loose? (w : World) (b : Nat) : Option Loose := (w.blocks[b]?).getD none

def fill (w : World) (b : Nat) (byte : UInt8) : World :=
  { w with blocks :=
    w.blocks.modify b fun o => o.map fun l => { l with block := l.block.fill byte } }

def giveBack (w : World) (b : Nat) (h : HeapId) : World :=
  match w.loose? b with
  | none => w
  | some l =>
    { w with blocks := w.blocks.setIfInBounds b none }.modifyHeap h (·.release l.block true)

def reclaim (w : World) (h : HeapId) : Nat × World :=
  ((w.heaps[h]?.map fun heap => heap.reclaim.1).getD 0, w.modifyHeap h fun heap => heap.reclaim.2)

def setDetecting (w : World) (h : HeapId) (on : Bool) : Except HeapRefusal Bool × World :=
  match w.heaps[h]?.map fun heap => heap.setDetecting on with
  | some (Except.ok (before, heap)) => (.ok before, w.modifyHeap h fun _ => heap)
  | some (Except.error e) => (.error e, w)
  | none => (.ok false, w)

def newOwner (w : World) : Nat × World :=
  (w.owners.size, { w with owners := w.owners.push none })

def newSoft (w : World) : Nat × World := (w.softs.size, { w with softs := w.softs.push none })

def moveScan (w : World) (i : Nat) (m : Position.Move) : World :=
  { w with scans := w.scans.modify i fun c => { c with position := c.position.move m } }

/-- Moves a walk among the buckets; its node stays. -/
def moveWalk (w : World) (i : Nat) (m : Position.Move) : World :=
  { w with walks := w.walks.modify i fun k =>
      { k with buckets := { k.buckets with position := k.buckets.position.move m } } }

/-- The panic that was unwinding, once all destruction is done. -/
def recover (w : World) : Option Panic × World :=
  if w.pending.isEmpty then (w.unwinding, { w with unwinding := none }) else (none, w)

end World

namespace Action

def run (w : World) : Action → World
  | .openHeap c => (w.openHeap c).2
  | .allot h l n => (w.allot h l n).2
  | .fill b byte => w.fill b byte
  | .giveBack b h => w.giveBack b h
  | .reclaim h => (w.reclaim h).2
  | .setDetecting h on => (w.setDetecting h on).2
  | .newOwner => w.newOwner.2
  | .newSoft => w.newSoft.2
  | .newScan r i => (w.newScan r i).2
  | .newWalk r i => (w.newWalk r i).2
  | .construct h k p => (w.construct h k p).2
  | .scrap s => w.scrap s
  | .scrapNode v f i p => w.scrapNode v f i p
  | .attach r p => (w.attach r p).2
  | .swapOwners i j => w.swapOwners i j
  | .swapSofts p q => w.swapSofts p q
  | .discardOwner i => w.discardOwner i
  | .discardSoft p => w.discardSoft p
  | .resetOwner i => (w.resetOwner i).2
  | .resetLink g i => (w.resetLink g i).2
  | .lend s a => (w.lend s a).2
  | .duplicate g => (w.duplicate g).2
  | .narrow g i => w.narrow g i
  | .endBorrow g => w.endBorrow g
  | .put g v => w.put g v
  | .exchangeLink g i j => w.exchangeLink g i j
  | .exchangeBack g i p => w.exchangeBack g i p
  | .moveScan i m => w.moveScan i m
  | .moveWalk i m => w.moveWalk i m
  | .raise p => w.raise p
  | .recover => w.recover.2
  | .clearLog => { w with log := [] }
  | .tick => w.tick

end Action

namespace World

/-- `w.Reaches v`: some actions, one after the other, lead from `w` to `v`. -/
inductive Reaches (w : World) : World → Prop where
  | refl : Reaches w w
  | step {v : World} (a : Action) : Reaches w v → Reaches w (a.run v)

theorem Reaches.trans {u v w : World} (h : u.Reaches v) (k : v.Reaches w) : u.Reaches w := by
  induction k with
  | refl => exact h
  | step a _ ih => exact .step a ih

theorem Reaches.once {w : World} (a : Action) : w.Reaches (a.run w) := .step a .refl

/-- The states that some run of actions leads to, for some arena. -/
def Reachable (w : World) : Prop := ∃ grant, (start grant).Reaches w

theorem Reachable.reaches {w v : World} (h : w.Reachable) (k : w.Reaches v) : v.Reachable := by
  obtain ⟨grant, h⟩ := h
  exact ⟨grant, h.trans k⟩

/-- A run that is given as a list. -/
theorem reaches_foldl (w : World) (as : List Action) : w.Reaches (as.foldl Action.run w) := by
  induction as generalizing w with
  | nil => exact .refl
  | cons a as ih => exact (Reaches.once a).trans (ih (a.run w))

/-- The actions of `drainFor`. -/
def ticksFor : Nat → World → List Action
  | 0, _ => []
  | n + 1, w => if w.pending.isEmpty then [] else .tick :: ticksFor n w.tick

/-- The actions of `drain`. -/
def ticks (w : World) : List Action :=
  let v := drainFor 256 w
  ticksFor 256 w ++ if v.pending.isEmpty then [] else ticksFor v.load v

theorem foldl_ticksFor (n : Nat) (w : World) :
    (ticksFor n w).foldl Action.run w = drainFor n w := by
  induction n generalizing w with
  | zero => rfl
  | succ n ih =>
    unfold ticksFor drainFor
    split
    · rfl
    · exact ih w.tick

theorem foldl_ticks (w : World) : w.ticks.foldl Action.run w = w.drain := by
  simp only [ticks, drain]
  rw [List.foldl_append, foldl_ticksFor]
  split
  · rfl
  · exact foldl_ticksFor _ _

theorem reaches_drain (w : World) : w.Reaches w.drain := foldl_ticks w ▸ reaches_foldl w w.ticks

end World

end Custody
