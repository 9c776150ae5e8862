import Custody.Heap.Config
import Custody.Heap.Stats
import Custody.Quarantine

/-! A heap: its configuration, its quarantine and its counters. -/

namespace Custody

structure Heap where
  config : Config
  quarantine : Quarantine
  stats : Stats
  deriving DecidableEq, Repr

namespace Heap

/-- A heap that has not been used; detection needs blocks to be kept. -/
def fresh (c : Config) : Heap := ⟨c, .empty (c.keeps && c.detects), .zero⟩

/-- A heap with a valid configuration. -/
def open? (c : Config) : Except ConfigRefusal Heap := do
  c.check
  return fresh c

def noteAllocated (h : Heap) (b : Block) : Heap := { h with stats := h.stats.allocated b.size }

/-- A block as it enters this heap's quarantine. -/
def prepare (h : Heap) (b : Block) : Block := if h.config.poisons then b.poisoned else b

/-- Takes back a block. It is kept if both the caller and the configuration ask
for that, and otherwise returned to the arena. -/
def release (h : Heap) (b : Block) (keep : Bool) : Heap :=
  let stats := h.stats.released b.size
  if keep && h.config.keeps then
    { h with quarantine := h.quarantine.push (h.prepare b), stats := stats.kept b.size }
  else { h with stats := stats }

/-- Returns every kept block to the arena; how many there were. -/
def reclaim (h : Heap) : Nat × Heap :=
  let n := h.quarantine.reclaim.1.length
  (n, { h with quarantine := h.quarantine.reclaim.2, stats := h.stats.cleared n })

/-- Whether recorded ranges are in effect. -/
def detects (h : Heap) : Bool := h.config.keeps && h.quarantine.detecting

/-- Switches detection; whether it was in effect. -/
def setDetecting (h : Heap) (on : Bool) : Except HeapRefusal (Bool × Heap) :=
  (h.quarantine.setDetecting on).map fun r =>
    (r.1 && h.config.keeps, { h with quarantine := r.2 })

def noteRegistered (h : Heap) : Heap := { h with stats := h.stats.registered }

def noteInvalidated (h : Heap) (n : Nat) : Heap := { h with stats := h.stats.invalidated n }

def describe (h : Heap) : String :=
  Text.fields "Heap" [("config", h.config.describe), ("stats", h.stats.describe)]

end Heap

end Custody
