import Custody.Handle.Node
import Custody.Session.Softs

/-! Commands on list nodes. -/

namespace Custody

inductive NodeCommand where
  | link (parent child : String)
  | unlink (parent child : String)
  /-- The owner's node observes what the handle watches. -/
  | observe (owner soft : String)
  /-- Names a handle for the node owned by the one watched. -/
  | next (soft other : String)
  /-- Names a copy of the handle stored in the node watched. -/
  | back (soft other : String)
  | resetNext (soft : String)
  deriving DecidableEq, Repr

namespace NodeCommand

open Step

def run (k : Kind) : NodeCommand → Step Report
  | .link parent child => do
    if parent = child then throw .inapplicable
    let p ← named (.owner k) parent
    let c ← unlent (.owner k) child .owner
    Op.link p c
    return .nothing
  | .unlink parent child => do
    if parent = child then throw .inapplicable
    let p ← named (.owner k) parent
    let c ← unlent (.owner k) child .owner
    Op.unlink p c
    return .nothing
  | .observe owner soft => do
    let o ← named (.owner k) owner
    let s ← named (.soft k) soft
    Op.observe o s
    return .nothing
  | .next soft other => do
    let s ← named (.soft k) other
    SoftCommand.callSoft k soft (← Op.watchNext s)
  | .back soft other => do
    let s ← named (.soft k) other
    SoftCommand.callSoft k soft (← Op.watchBack s)
  | .resetNext soft => do
    Op.resetNext (← named (.soft k) soft)
    return .nothing

end NodeCommand

end Custody
