import Custody.Handle.Scan

/-! Walking a chained table. The table is an array of buckets, each owning a chain
of entries. A walk watches one entry and stands at its bucket; stepping follows the
chain, then looks for the next bucket that is not empty. Past the last entry it
stands at the end and watches nothing. -/

namespace Custody

namespace World

def walk (w : World) (i : Nat) : Walk := (w.walks[i]?).getD ⟨none, ⟨none, .origin⟩⟩

/-- What the bucket at a walk's position owns, if the table can be read now. -/
def bucketHead (w : World) (i : Nat) : Except AccessRefusal Owner := do
  let (_, items) ← w.inspect (.soft (.buckets i)) .shared
  let index ← (w.walk i).buckets.position.aim items.length .here
  return (← elementAt items index).link

/-- The entry that a walk watches, if it can be read now. -/
def walked (w : World) (i : Nat) : Except AccessRefusal Item := do
  let (_, items) ← w.inspect (.soft (.node i)) .shared
  elementAt items 0

/-- Whether two walks over one table are at the same place. -/
def sameWalk (w : World) (i j : Nat) : Except AccessRefusal Bool :=
  if sameTarget (w.walk i).buckets.array (w.walk j).buckets.array then
    .ok (sameSoft (w.walk i).node (w.walk j).node &&
      (w.walk i).buckets.position.index = (w.walk j).buckets.position.index)
  else .error .unrelated

/-- Whether a walk is usable: its table can be read, and it is at the end or at an
entry that is alive. -/
def checkWalk (w : World) (i : Nat) : Except AccessRefusal Unit := do
  let (_, items) ← w.inspect (.soft (.buckets i)) .shared
  let index := (w.walk i).buckets.position.index
  if items.length < index.toNat then throw (.outOfRange index.toNat items.length)
  if (w.walk i).node.isSome && !w.isValid (w.walk i).node then throw .gone

def describeWalk (w : World) (i : Nat) : String :=
  Text.fields "HashIter"
    [("bucket", toString (w.walk i).buckets.position.index.toNat),
     ("node", w.describeSoft (w.walk i).node)]

end World

namespace Op

/-- A walk goes away: its node handle first. -/
def dropWalk (i : Nat) : Op Unit := do
  ExceptT.lift do
    Act.act (.discardSoft (.node i))
    Act.drain
    Act.act (.discardSoft (.buckets i))
  quiesce

/-- Makes a walk watch nothing. -/
def clearNode (i : Nat) : Op Unit := dropSoft (.node i)

/-- Makes a walk watch the head of the first bucket that is not empty, among the
next `n` from its position on; past them it watches nothing. -/
def seek (i : Nat) : Nat → Op Unit
  | 0 => clearNode i
  | n + 1 => do
    match ← inspect (·.bucketHead i) with
    | some r => rewatch r (.node i)
    | none => do
      act (.moveWalk i .next)
      seek i n

/-- Seeks from the present bucket to the end. -/
def seekOn (i : Nat) : Op Unit := do
  seek i (← look (·.walk i)).buckets.position.remaining

/-- A walk at the first entry of the table that a handle watches. -/
def beginWalk (s : Soft) : Op Nat := do
  let i ← inManner .insist (granted (Act.newWalk (s.map Watch.record) 0))
  match ← ExceptT.lift (seekOn i).run with
  | .ok () => return i
  | .error fault => do
    dropWalk i
    throw fault

/-- A walk at the end of the table that a handle watches. -/
def endWalk (s : Soft) : Op Nat :=
  inManner .insist (granted (Act.newWalk (s.map Watch.record) Word.top))

/-- A second walk at the same place; the node is watched first. -/
def copyWalk (i : Nat) : Op Nat := do
  let k ← look (·.walk i)
  let t ← inManner .insist (watch (k.node.map Watch.record))
  match ← ExceptT.lift
      (inManner .insist
        (granted (Act.newWalk (k.buckets.array.map Watch.record)
          k.buckets.position.index))).run with
  | .ok j => do
    act (.swapSofts (.node j) (.soft t))
    return j
  | .error fault => do
    dropSoft (.soft t)
    throw fault

/-- One step to the next entry; nothing at the end. -/
def stepWalk (i : Nat) : Op Unit := do
  if (← look (·.walk i)).node.isNone then return ()
  let item ← inspect (·.walked i)
  match item.link with
  | some r => rewatch r (.node i)
  | none => do
    act (.moveWalk i .next)
    seekOn i

/-- A handle for the entry at a walk, which steps on; none at the end. -/
def nextNode (i : Nat) : Op (Option Nat) := do
  match (← look (·.walk i)).node with
  | none => return none
  | some k => do
    let t ← inManner .insist (watch (some k.record))
    match ← ExceptT.lift (inManner .insist (stepWalk i)).run with
    | .ok () => return some t
    | .error fault => do
      dropSoft (.soft t)
      throw fault

/-- The number of the next entry, read through a handle of its own. -/
def nextKey (m : Manner) (i : Nat) : Op (Option Item) := do
  match ← nextNode i with
  | none => return none
  | some t => do
    let (_, items) ← thenClean (read m (.soft (.soft t))) (do
      Act.act (.discardSoft (.soft t))
      Act.drain)
    return items.head?

/-- The entries from a walk on, at most `n`. -/
def keysFor (i : Nat) : Nat → Op (List Item)
  | 0 => return []
  | n + 1 => do
    match ← nextKey .insist i with
    | none => return []
    | some item => return item :: (← keysFor i n)

/-- The entries from a walk on, through a walk of their own; the walk itself stays.
There are no more of them than records. -/
def keys (i : Nat) : Op (List Item) := do
  let j ← copyWalk i
  thenClean (do keysFor j (← look fun w => w.records.size + 1)) (do
    Act.act (.discardSoft (.node j))
    Act.drain
    Act.act (.discardSoft (.buckets j))
    Act.drain)

end Op

end Custody
