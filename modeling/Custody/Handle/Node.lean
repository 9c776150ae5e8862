import Custody.Handle.Range

/-! List nodes: each owns the next one and observes another. Handles in a node are
exchanged under an exclusive guard; what was there goes away after the guard is
released. -/

namespace Custody

namespace Op

/-- What variable `child` owns becomes the next node of what `parent` owns. -/
def link (parent child : Nat) : Op Unit := do
  let old ← borrowing (.owner parent) .exclusive fun g => do
    let t ← ExceptT.lift Act.newOwner
    act (.swapOwners child t)
    act (.exchangeLink g 0 t)
    return t
  dropOwner old

/-- Variable `child` receives the next node of what `parent` owns. -/
def unlink (parent child : Nat) : Op Unit := do
  let t ← borrowing (.owner parent) .exclusive fun g => do
    let t ← ExceptT.lift Act.newOwner
    act (.exchangeLink g 0 t)
    act (.swapOwners child t)
    return t
  dropOwner t

/-- What variable `o` owns observes what handle `s` watches, through a copy. -/
def observe (o s : Nat) : Op Unit := do
  let t ← watch ((← look (·.soft (.soft s))).map Watch.record)
  let exchanged ← ExceptT.lift
    (borrowing (.owner o) .exclusive fun g => act (.exchangeBack g 0 (.soft t))).run
  match exchanged with
  | .ok () => dropSoft (.soft t)
  | .error fault => do
    dropSoft (.soft t)
    throw fault

/-- The node that a handle watches, if it can be read now. -/
def readNode (s : Nat) : Op Item := do
  let (_, items) ← read .attempt (.soft (.soft s))
  access (elementAt items 0)

/-- A handle for the next node of what handle `s` watches. -/
def watchNext (s : Nat) : Op Nat := do watch (← readNode s).link

/-- A copy of the handle stored in the node that handle `s` watches. -/
def watchBack (s : Nat) : Op Nat := do watch ((← readNode s).back.map Watch.record)

/-- Destroys the next node of what handle `s` watches, under the guard of the node. -/
def resetNext (s : Nat) : Op Unit :=
  borrowing (.soft (.soft s)) .exclusive fun g => reset .attempt (.link g 0)

end Op

end Custody
