import Custody.Handle.Walk

/-! Chained tables: an array of buckets, each the owner of a chain of entries with
the latest entry first. A bucket is changed under an exclusive guard; what was taken
out of it goes away after the guard is released. -/

namespace Custody

namespace Op

/-- The plan of a table with `n` empty buckets. -/
def emptyTable (n : UInt64) : Plan := ⟨n, fun _ => .bucket, none⟩

/-- The bucket of a key. -/
def bucketOf (key : Int64) (n : Nat) : UInt64 := UInt64.ofNat (key.toInt.emod n).toNat

/-- Takes what the owner in element `i` of an exclusively guarded object holds into a
new variable. -/
def takeLink (g i : Nat) : Op Nat := do
  let t ← ExceptT.lift Act.newOwner
  act (.exchangeLink g i t)
  return t

/-- Puts a new entry in front of the chain that variable `t` holds; the variable of
the new chain. -/
def chain (h : HeapId) (k : Kind) (key : Int64) (t : Nat) : Op Nat := do
  match ← ExceptT.lift (inManner .insist (place h (.plain k (.single (.entry key))))).run with
  | .ok e => do
    borrowing (.owner e) .exclusive fun g => act (.exchangeLink g 0 t)
    return e
  | .error fault => do
    dropOwner t
    throw fault

/-- Puts a key in front of its bucket's chain. -/
def insertKey (t : Nat) (key : Int64) : Op Unit := do
  let o ← look (·.owner t)
  let n ← look (·.ownerLength o)
  let b := bucketOf key n
  borrowingElement (.owner t) .exclusive b fun g => do
    let h := (← look (·.heapOf o)).getD World.currentHeap
    let k := ((← look fun w => o.bind (w.records[·]?)).map Record.kind).getD
      ⟨.array, .bucket, .tracked⟩
    let old ← takeLink g b.toNat
    let e ← chain h k.entries key old
    act (.exchangeLink g b.toNat e)

/-- Destroys the chain of bucket `b`, under the bucket's guard. -/
def clearBucket (t : Nat) (b : UInt64) : Op Unit :=
  borrowingElement (.owner t) .exclusive b fun g => reset .attempt (.link g b.toNat)

/-- Takes out the chain behind the first entry that variable `head` holds. -/
def takeTail (head : Nat) : Op Nat :=
  borrowing (.owner head) .exclusive fun g => takeLink g 0

/-- Destroys the first entry of bucket `b`; the rest of its chain stays. -/
def popBucket (t : Nat) (b : UInt64) : Op Unit := do
  let old ← borrowingElement (.owner t) .exclusive b fun g => do
    let head ← takeLink g b.toNat
    if (← look (·.owner head)).isNone then return head
    match ← ExceptT.lift (takeTail head).run with
    | .ok tail => do
      act (.exchangeLink g b.toNat tail)
      return head
    | .error fault => do
      act (.exchangeLink g b.toNat head)
      throw fault
  dropOwner old

/-- Destroys all but the first entry of bucket `b`. -/
def cutBucket (t : Nat) (b : UInt64) : Op Unit := do
  let old ← borrowingElement (.owner t) .exclusive b fun g => do
    let head ← takeLink g b.toNat
    let tail ← ExceptT.lift (takeTail head).run
    act (.exchangeLink g b.toNat head)
    match tail with
    | .ok tail => return tail
    | .error fault => throw fault
  dropOwner old

end Op

end Custody
