import Custody.Session.Step
import Custody.Session.Display

/-! Commands on owners. -/

namespace Custody

inductive OwnerCommand where
  /-- Builds an object, on a named heap or on the current one. -/
  | build (m : Manner) (owner : String) (heap : Option String) (plan : Plan)
  | empty (owner : String)
  /-- Replaces the object by a new one, which is destroyed if that cannot be done. -/
  | renew (owner : String) (plan : Plan)
  | drop (owner : String)
  | dropUnwinding (owner : String)
  | reset (m : Manner) (owner : String)
  | take (giver taker : String)
  | swap (owner other : String)
  | describe (owner : String)
  /-- Names the heap of the object. -/
  | heapOf (owner heap : String)
  /-- Names the address of the object. -/
  | locate (m : Manner) (owner address : String)
  | ownsAddress (owner address : String)

namespace World

/-- Whether an owner is empty and owns something, the identifier, the observers and
their slots, whether there is a heap, and the text. -/
def viewOwner (w : World) (o : Owner) : Report :=
  .row
    [.flag o.isNone, .flag o.isSome, .identifier o, .natural (w.observers o),
     .natural (w.observerSlots o), .flag (w.heapOf o).isSome, .text (w.describeOwner o)]

end World

namespace OwnerCommand

open Step

/-- The heap named, or the current one. -/
def heapOrCurrent (heap : Option String) : Step HeapId :=
  match heap with
  | some name => named .heap name
  | none => return World.currentHeap

def run (k : Kind) : OwnerCommand → Step Report
  | .build m owner heap plan => do
    let h ← heapOrCurrent heap
    let i ← Op.inManner m (Op.build h k plan)
    call (.owner k) owner i
    look fun w => .identifier (w.owner i)
  | .empty owner => do
    call (.owner k) owner (← Step.lift (ExceptT.lift Act.newOwner))
    return .nothing
  | .renew owner plan => do
    match ← unlent? (.owner k) owner .owner with
    | none => do
      Step.lift (ExceptT.lift (Op.scrap (.plain k plan)))
      throw .inapplicable
    | some i => do
      Op.replace (.owner i) (.plain k plan)
      look fun w => .identifier (w.owner i)
  | .drop owner => do
    Op.dropOwner (← surrender (.owner k) owner .owner)
    return .nothing
  | .dropUnwinding owner => do
    Op.dropOwnerUnwinding (← surrender (.owner k) owner .owner)
    return .nothing
  | .reset m owner => do
    Op.reset m (.owner (← unlent (.owner k) owner .owner))
    return .nothing
  | .take giver taker => do
    let i ← unlent (.owner k) giver .owner
    let j ← unlent (.owner k) taker .owner
    Op.takeOwner i j
    return .nothing
  | .swap owner other => do
    let i ← unlent (.owner k) owner .owner
    let j ← unlent (.owner k) other .owner
    Op.act (.swapOwners i j)
    return .nothing
  | .describe owner => do
    let i ← named (.owner k) owner
    look fun w => w.viewOwner (w.owner i)
  | .heapOf owner heap => do
    let i ← named (.owner k) owner
    match ← look fun w => w.heapOf (w.owner i) with
    | none => return .flag false
    | some h => do
      rename .heap heap h
      return .flag true
  | .locate m owner address => do
    let i ← named (.owner k) owner
    rename .address address
      (← Op.inManner m (Op.inspect fun w => w.ownerAddress (w.owner i)))
    return .nothing
  | .ownsAddress owner address => do
    let i ← named (.owner k) owner
    let a ← named .address address
    return .flag (← look fun w => w.ownsAddress (w.owner i) a)

end OwnerCommand

end Custody
