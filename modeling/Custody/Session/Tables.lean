import Custody.Handle.Table
import Custody.Session.Step
import Custody.Session.Display

/-! Commands on chained tables, on walks over them and on runs through their
entries. -/

namespace Custody

inductive TableCommand where
  /-- Puts keys in, one after the other. -/
  | insert (table : String) (keys : List Int64)
  | clear (table : String) (bucket : UInt64)
  /-- Destroys the first entry of a bucket. -/
  | pop (table : String) (bucket : UInt64)
  /-- Destroys all but the first entry of a bucket. -/
  | cut (table : String) (bucket : UInt64)
  | describe (table : String)
  deriving DecidableEq, Repr

inductive WalkCommand where
  | start (m : Manner) (walk table : String)
  | finish (walk table : String)
  | copy (walk other : String)
  | drop (walk : String)
  | step (m : Manner) (walk : String)
  | read (m : Manner) (walk : String)
  | lend (guard walk : String)
  | describe (walk : String)
  | same (walk other : String)
  | check (walk : String)
  | keys (walk : String)
  /-- Names a run through the entries from the walk on. -/
  | follow (nodes walk : String)
  | next (nodes : String)
  deriving DecidableEq, Repr

namespace TableCommand

open Step

def run (k : Kind) : TableCommand → Step Report
  | .insert table keys => do
    let t ← unlent (.owner k) table .owner
    keys.forM fun key => Step.lift (Op.insertKey t key)
    return .nothing
  | .clear table bucket => do
    Op.clearBucket (← unlent (.owner k) table .owner) bucket
    return .nothing
  | .pop table bucket => do
    Op.popBucket (← unlent (.owner k) table .owner) bucket
    return .nothing
  | .cut table bucket => do
    Op.cutBucket (← unlent (.owner k) table .owner) bucket
    return .nothing
  | .describe table => do
    let t ← named (.owner k) table
    look fun w =>
      let o := w.owner t
      .row [.natural (w.ownerLength o), .natural (w.observers o),
        .natural (w.observerSlots o), .text (w.describeOwner o)]

end TableCommand

namespace World

/-- The bucket of a walk and whether that is the end. -/
def viewPlace (w : World) (i : Nat) : Report := .position (w.walk i).buckets.position

/-- The place of a walk, whether its entry is valid, the ticket and identifier under
which it is watched, and the text. -/
def viewWalk (w : World) (i : Nat) : Report :=
  let k := w.walk i
  .row [.word k.buckets.position.index, .flag k.buckets.position.isEnd,
    .flag (w.isValid k.node), .ticket (ticketOf k.node), .identifier (k.node.map Watch.record),
    .text (w.describeWalk i)]

end World

namespace WalkCommand

open Step

/-- Does `body` with a handle for what an owner holds, which goes away after. -/
def throughSoft {α : Type} (o : Owner) (body : Soft → Op α) : Op α := do
  let t ← Op.inManner .insist (Op.watch o)
  Op.thenClean (do body (← Op.look (·.soft (.soft t)))) (do
    Act.act (.discardSoft (.soft t))
    Act.drain)

/-- A new walk is named; where it is. -/
def callWalk (k : Kind) (walk : String) (i : Nat) : Step Report := do
  call (.walk k) walk i
  look (·.viewPlace i)

def nodeSource (i : Nat) : Source := .soft (.node i)

def run (k : Kind) : WalkCommand → Step Report
  | .start m walk table => do
    let t ← named (.owner k) table
    let o ← look (·.owner t)
    callWalk k walk (← throughSoft o fun s => Op.inManner m (Op.beginWalk s))
  | .finish walk table => do
    let t ← named (.owner k) table
    let o ← look (·.owner t)
    callWalk k walk (← throughSoft o Op.endWalk)
  | .copy walk other => do
    let i ← named (.walk k) other
    call (.walk k) walk (← Op.copyWalk i)
    return .nothing
  | .drop walk => do
    Op.dropWalk (← surrender (.walk k) walk nodeSource)
    return .nothing
  | .step m walk => do
    let i ← unlent (.walk k) walk nodeSource
    Op.inManner m (Op.stepWalk i)
    look (·.viewPlace i)
  | .read m walk => do
    let i ← named (.walk k) walk
    let item ← Op.inManner m (Op.inspect (·.walked i))
    look (·.viewItem item)
  | .lend guard walk => do
    let i ← named (.walk k) walk
    call .guard guard (← Op.permitted (Act.lend (nodeSource i) .shared))
    return .nothing
  | .describe walk => do
    let i ← named (.walk k) walk
    look (·.viewWalk i)
  | .same walk other => do
    let i ← named (.walk k) walk
    let j ← named (.walk k) other
    return .flag (← Op.inManner .insist (Op.inspect (·.sameWalk i j)))
  | .check walk => do
    let i ← named (.walk k) walk
    Op.inspect (·.checkWalk i)
    return .nothing
  | .keys walk => do
    let i ← named (.walk k) walk
    let items ← Op.keys i
    look fun w => .row (items.map w.viewItem)
  | .follow nodes walk => do
    let i ← named (.walk k) walk
    call (.nodes k) nodes (← Op.copyWalk i)
    return .nothing
  | .next nodes => do
    let i ← named (.nodes k) nodes
    let item ← Op.nextKey .attempt i
    look fun w => .optional w.viewItem item

end WalkCommand

end Custody
