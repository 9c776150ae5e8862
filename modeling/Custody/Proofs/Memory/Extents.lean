import Custody.Proofs.Ledger.Actions

/-! Where memory is. A block that was granted is in a record, in the hands of the
program, in the task that will abandon it, or in a quarantine; `World.extents` collects
the ranges of addresses of all of them. The blocks that are in no quarantine are still
charged to the heaps that granted them, which `World.charges` lists. -/

namespace Custody

/-- The addresses from `first` up to `past`, which is not one of them. -/
structure Extent where
  first : Nat
  past : Nat
  deriving DecidableEq

/-- No address in common, and room between them; so no extent is apart from itself. -/
def Extent.Apart (s t : Extent) : Prop := s.past < t.first ∨ t.past < s.first

theorem Extent.Apart.symm {s t : Extent} (h : s.Apart t) : t.Apart s := Or.symm h

namespace Block

def extent (b : Block) : Extent := ⟨b.base, b.base + b.size⟩

/-- The blocks have no address in common. -/
def Apart (b c : Block) : Prop := b.extent.Apart c.extent

end Block

/-- A block that a heap granted and that has not come back. -/
structure Charge where
  heap : HeapId
  extent : Extent
  deriving DecidableEq

namespace Extent

def ofBlock? (b : Option Block) : Multiset Extent :=
  match b with
  | none => 0
  | some b => {b.extent}

def ofRecord (rec : Record) : Multiset Extent := ofBlock? rec.block

def ofLoose (o : Option Loose) : Multiset Extent := ofBlock? (o.map Loose.block)

def ofTask : Task → Multiset Extent
  | .abandon _ b => {b.extent}
  | _ => 0

def ofHeap (h : Heap) : Multiset Extent := h.quarantine.blocks.map Block.extent

@[simp] theorem ofBlock?_some (b : Block) : ofBlock? (some b) = {b.extent} := rfl

@[simp] theorem extent_prepare (h : Heap) (b : Block) : (h.prepare b).extent = b.extent := by
  unfold Heap.prepare
  split_ifs <;> rfl

/-- A heap keeps a block that comes back, or gives it to the arena. -/
theorem ofHeap_release (h : Heap) (b : Block) (keep : Bool) :
    ofHeap (h.release b keep) ≤ {b.extent} + ofHeap h := by
  unfold Heap.release
  split_ifs
  · simp [ofHeap, Quarantine.push]
  · exact Multiset.le_add_left _ _

end Extent

open Extent

namespace Charge

def ofRecord (rec : Record) : Multiset Charge := (Extent.ofRecord rec).map (.mk rec.heap)

def ofLoose : Option Loose → Multiset Charge
  | none => 0
  | some l => {⟨l.heap, l.block.extent⟩}

def ofTask : Task → Multiset Charge
  | .abandon h b => {⟨h, b.extent⟩}
  | _ => 0

theorem map_ofRecord (rec : Record) : (ofRecord rec).map extent = Extent.ofRecord rec := by
  simp [ofRecord, Multiset.map_map]

theorem map_ofLoose (o : Option Loose) : (ofLoose o).map extent = Extent.ofLoose o := by
  cases o <;> rfl

theorem map_ofTask (t : Task) : (ofTask t).map extent = Extent.ofTask t := by cases t <;> rfl

end Charge

namespace World

/-- The ranges of all blocks that were granted and have not gone back to the arena. -/
def extents (w : World) : Multiset Extent :=
  tally ofRecord w.records.toList + tally ofLoose w.blocks.toList + tally ofTask w.pending +
    tally ofHeap w.heaps.toList

/-- The blocks that were granted and have not come back to a heap. -/
def charges (w : World) : Multiset Charge :=
  tally Charge.ofRecord w.records.toList + tally Charge.ofLoose w.blocks.toList +
    tally Charge.ofTask w.pending

variable {w : World}

theorem extents_eq : w.extents = w.charges.map Charge.extent + tally ofHeap w.heaps.toList := by
  simp only [extents, charges, Multiset.map_add, map_tally, Charge.map_ofRecord, Charge.map_ofLoose,
    Charge.map_ofTask]

end World

end Custody
