import Custody.Session.Step
import Custody.Session.Display

/-! Commands on objects, through owners and observing handles alike, and on the
guards that a session keeps. -/

namespace Custody

/-- The name of an owner or of an observing handle. -/
inductive Via where
  | owner (name : String)
  | soft (name : String)
  deriving DecidableEq, Repr

inductive ObjectCommand where
  | read (m : Manner) (via : Via)
  | write (m : Manner) (via : Via) (value : Int)
  | lend (guard : String) (via : Via) (access : Access)
  | length (via : Via)
  | readAt (m : Manner) (via : Via) (index : UInt64)
  | writeAt (m : Manner) (via : Via) (index : UInt64) (value : Int)
  | lendAt (guard : String) (via : Via) (access : Access) (index : UInt64)
  deriving DecidableEq, Repr

inductive GuardCommand where
  | read (guard : String)
  | write (guard : String) (value : Int)
  | duplicate (guard copy : String)
  | narrow (guard : String) (index : Nat)
  | release (guard : String)
  deriving DecidableEq, Repr

namespace Via

open Step

/-- The handle that a name stands for. -/
def source (k : Kind) : Via → Step Source
  | .owner name => return .owner (← named (.owner k) name)
  | .soft name => return softSource (← named (.soft k) name)

end Via

namespace World

/-- The length of the range that a handle in a variable leads to. -/
def sourceLength (w : World) : Source → Nat
  | .owner i => w.ownerLength (w.owner i)
  | .soft p => w.softLength (w.soft p)

end World

namespace ObjectCommand

open Step

def run (k : Kind) : ObjectCommand → Step Report
  | .read m via => do
    let s ← via.source k
    let (_, items) ← Op.read m s
    look (·.viewObject k items)
  | .write m via value => do
    let s ← via.source k
    Op.write m s value
    return .nothing
  | .lend guard via access => do
    let s ← via.source k
    call .guard guard (← Op.permitted (Act.lend s access))
    return .nothing
  | .length via => do
    let s ← via.source k
    return .natural (← look (·.sourceLength s))
  | .readAt m via index => do
    let s ← via.source k
    let item ← Op.readElement m s index
    look (·.viewItem item)
  | .writeAt m via index value => do
    let s ← via.source k
    Op.writeElement m s index value
    return .nothing
  | .lendAt guard via access index => do
    let s ← via.source k
    call .guard guard (← Op.lendElement s access index)
    return .nothing

end ObjectCommand

namespace GuardCommand

open Step

def run : GuardCommand → Step Report
  | .read guard => do
    let g ← named .guard guard
    match ← look (·.guard? g) with
    | none => throw .inapplicable
    | some held => do
      let (view, text) ← look fun w => w.viewGuard held (w.guarded g)
      return .row [view, .text text]
  | .write guard value => do
    let g ← named .guard guard
    Op.act (.put g value)
    return .nothing
  | .duplicate guard copy => do
    let g ← named .guard guard
    match ← Step.lift (ExceptT.lift (Act.duplicate g)) with
    | some j => call .guard copy j
    | none => throw .inapplicable
    return .nothing
  | .narrow guard index => do
    let g ← named .guard guard
    Op.act (.narrow g index)
    return .nothing
  | .release guard => do
    let g ← named .guard guard
    modifyNames (·.erase .guard guard)
    Op.act (.endBorrow g)
    return .nothing

end GuardCommand

end Custody
