import Custody.Handle.Owner
import Custody.Handle.Soft

/-! Many owners, each watched by some handles. -/

namespace Custody

namespace Op

def numberKind (m : Mode) : Kind := ⟨.one, .int, m⟩

/-- Owners of the numbers below `n`. -/
def owners (h : HeapId) (m : Mode) (n : Nat) : Op (List Nat) :=
  (List.range n).mapM fun v =>
    inManner .insist (build h (numberKind m) (.single (.int (Int64.ofNat v))))

/-- `count` handles for what variable `i` owns, one after the other: the first that
has no slot ends the operation. -/
def watchTimes : (count : Nat) → (i : Nat) → Op (List Nat)
  | 0, _ => return []
  | count + 1, i => do
    let s ← inManner .insist (watch (← look (·.owner i)))
    return s :: (← watchTimes count i)

/-- `count` handles for each of some owners. -/
def watchEach (count : Nat) (os : List Nat) : Op (List Nat) := do
  return (← os.mapM (watchTimes count)).flatten

def dropOwners (os : List Nat) : Op Unit := os.forM dropOwner

def dropSofts (ss : List Nat) : Op Unit := ss.forM fun s => dropSoft (.soft s)

end Op

namespace World

/-- How many of some handles are valid. -/
def validCount (w : World) (ss : List Nat) : Nat :=
  (ss.filter fun s => w.isValid (w.soft (.soft s))).length

/-- The numbers that can be read through some handles. -/
def readable (w : World) (ss : List Nat) : List Int64 :=
  ss.filterMap fun s =>
    match w.inspect (.soft (.soft s)) .shared with
    | .ok (_, items) => items.head?.map Item.value
    | .error _ => none

/-- How many objects finalizers have reported. -/
def dropCount (w : World) : Nat :=
  (w.log.filter fun | .dropped _ => true | .probed .. => false).length

end World

end Custody
