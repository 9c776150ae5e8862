import Custody.Handle.Node

/-! Doubly linked chains. Each node owns the next one and observes the one before it.
A chain is built from its last node on; its sum is taken by following the owners with
an observing handle. -/

namespace Custody

namespace Op

def nodeKind : Kind := ⟨.one, .node, .tracked⟩

/-- A node in front of the chain that variable `head` owns; the variable of the longer
chain. The node behind receives its handle while that variable still owns it, and is linked
after this. To link it first, and to borrow it through the owner in the new node, leads to
the same state: nobody else looks at the nodes in between. -/
def prepend (h : HeapId) (value : Nat) (head : Nat) : Op Nat := do
  let plan := Plan.single (.node (Int64.ofNat value) .plain)
  let i ← inManner .insist (build h nodeKind plan)
  let back ← inManner .insist (watch (← look (·.owner i)))
  if (← look (·.owner head)).isSome then
    borrowing (.owner head) .exclusive fun g => act (.exchangeBack g 0 (.soft back))
  dropSoft (.soft back)
  link i head
  return i

/-- Nodes `n - 1` down to `0` in front of a chain. -/
def prependAll (h : HeapId) : (n : Nat) → (head : Nat) → Op Nat
  | 0, head => return head
  | n + 1, head => do prependAll h n (← prepend h n head)

/-- A chain of nodes `0` up to `n - 1`; the variable that owns its head. -/
def newChain (h : HeapId) (n : Nat) : Op Nat := do prependAll h n (← ExceptT.lift Act.newOwner)

/-- The sum of two words of 32 bits; giving up where it is none. -/
def addWords (a : UInt32) (v : Int64) : Op UInt32 :=
  let sum := a.toNat + v.toInt.toNat
  if sum < UInt32.size then return UInt32.ofNat sum else panic .addition

/-- The sum of the values from the node that handle `cursor` watches on, over `fuel`
nodes at most. The handle is used up, also if the sum is none or the next node cannot be
watched. -/
def sumFrom : (fuel : Nat) → (cursor : Nat) → (total : UInt32) → Op UInt32
  | 0, cursor, total => do
    dropSoft (.soft cursor)
    return total
  | fuel + 1, cursor, total => do
    match ← look (·.inspect (.soft (.soft cursor)) .shared) with
    | .error _ => do
      dropSoft (.soft cursor)
      return total
    | .ok (_, items) => do
      let node := items.headD .unit
      let advanced : Op (UInt32 × Nat) := do
        let total ← addWords total node.value
        return (total, ← inManner .insist (watch node.link))
      let (total, next) ← thenClean advanced (Act.act (.discardSoft (.soft cursor)))
      sumFrom fuel next total

/-- The sum of the values of the chain that variable `head` owns. -/
def sumOfChain (head : Nat) : Op UInt32 := do
  let cursor ← inManner .insist (watch (← look (·.owner head)))
  sumFrom ((← look fun w => w.records.size) + 1) cursor 0

end Op

end Custody
