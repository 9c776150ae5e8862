import Custody.World.Destruction

/-! Building objects. A block is laid out and granted before the first element is
built, so a request that is refused builds nothing. If building an element gives
up, the elements built so far are destroyed in order and the block goes back
unkept; no record exists then, and no identifier is used up. -/

namespace Custody

/-- What an array is built from: how many elements, the element at each index, and
the index at which building gives up, if any. -/
structure Plan where
  count : UInt64
  seed : Nat → Seed
  stop : Option Nat

namespace Plan

def single (s : Seed) : Plan := ⟨1, fun _ => s, none⟩

/-- The first `n` elements. -/
def items (p : Plan) (n : Nat) : List Item := (List.range n).map fun i => (p.seed i).item

/-- The index at which building gives up, if it comes to that. -/
def stop? (p : Plan) : Option Nat := p.stop.filter (· < p.count.toNat)

/-- The panic with which building gives up, if it does, and the elements built. -/
def built (p : Plan) : Option Panic × List Item :=
  match p.stop? with
  | some n => (some (.builder n), p.items n)
  | none => (none, p.items p.count.toNat)

@[simp] theorem length_items (p : Plan) (n : Nat) : (p.items n).length = n := by simp [items]

end Plan

namespace World

/-- A block from the arena, counted by a heap. -/
def allocate (w : World) (h : HeapId) (payload : Layout) (elements : Nat) :
    Except HeapRefusal (Block × World) :=
  (w.arena.allocate payload elements).map fun r =>
    (r.1, { w with arena := r.2 }.modifyHeap h (·.noteAllocated r.1))

/-- The record of a new object that consists of `items`: borrowed by nobody, with the first
slots free, and held by one owner. -/
def recordOf (w : World) (h : HeapId) (k : Kind) (items : List Item) (b : Block) : Record :=
  let config := (w.heaps[h]?.map Heap.config).getD .standard
  { heap := h
    kind := k
    length := items.length
    block := some b
    borrow := .none
    slots := .empty config.growth config.cap w.arena.grant
    object := some items
    orphaned := false
    handles := 1 }

/-- A block is laid out and granted, and `fill` builds elements for it. If building gives
up, what was built is destroyed. The owner is put into a new variable, whose number is
returned. -/
def buildBy (w : World) (h : HeapId) (k : Kind) (payload : Option Layout) (n : Nat)
    (fill : World → (Option Panic × List Item) × World) : Except HeapRefusal Nat × World :=
  match payload with
  | none => (.error (.layoutOverflow n), w)
  | some payload =>
    match w.allocate h payload (k.recorded n) with
    | .error e => (.error e, w)
    | .ok (b, u) =>
      match fill u with
      | ((some p, items), v) =>
        (.ok v.owners.size,
          ({ v with owners := v.owners.push none }.schedule
            (items.map Task.dropItem ++ [Task.abandon h b])).raise p)
      | ((none, items), v) =>
        let i := v.owners.size
        let r := v.records.size
        let record := v.recordOf h k items b
        (.ok i, { v with records := v.records.push record, owners := v.owners.push (some r) })

/-- Builds an object from a plan. -/
def construct (w : World) (h : HeapId) (k : Kind) (p : Plan) : Except HeapRefusal Nat × World :=
  w.buildBy h k (k.layout p.count.toNat) p.count.toNat fun u => (p.built, u)

/-- The record of a new object that a plan describes. -/
def newRecord (w : World) (h : HeapId) (k : Kind) (p : Plan) (b : Block) : Record :=
  w.recordOf h k (p.items p.count.toNat) b

theorem length_newRecord (w : World) (h : HeapId) (k : Kind) (p : Plan) (b : Block) :
    (w.newRecord h k p b).length = p.count.toNat := p.length_items _

theorem construct_eq (w : World) (h : HeapId) (k : Kind) (p : Plan) :
    w.construct h k p =
      match k.layout p.count.toNat with
      | none => (.error (.layoutOverflow p.count.toNat), w)
      | some payload =>
        match w.allocate h payload (k.recorded p.count.toNat) with
        | .error e => (.error e, w)
        | .ok (b, v) =>
          match p.stop? with
          | some n =>
            (.ok v.owners.size,
              ({ v with owners := v.owners.push none }.schedule
                ((p.items n).map Task.dropItem ++ [Task.abandon h b])).raise (.builder n))
          | none =>
            (.ok v.owners.size, { v with
              records := v.records.push (v.newRecord h k p b)
              owners := v.owners.push (some v.records.size) }) := by
  unfold construct buildBy Plan.built
  cases p.stop? <;> rfl

end World

end Custody
