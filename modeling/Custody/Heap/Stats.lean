import Custody.Text.Fields

/-! The counters of a heap. -/

namespace Custody

structure Stats where
  allocations : Nat
  deallocations : Nat
  liveBlocks : Nat
  liveBytes : Nat
  keptBlocks : Nat
  keptBytes : Nat
  reclaimed : Nat
  /-- Observers registered on the heap's allocations. -/
  registrations : Nat
  /-- Registrations told that their owner has gone. -/
  invalidations : Nat
  deriving DecidableEq, Repr

namespace Stats

def zero : Stats := ⟨0, 0, 0, 0, 0, 0, 0, 0, 0⟩

def allocated (s : Stats) (bytes : Nat) : Stats :=
  { s with
    allocations := s.allocations + 1
    liveBlocks := s.liveBlocks + 1
    liveBytes := s.liveBytes + bytes }

/-- A block comes back. The counts of what is live stop at zero, since the block
may have come from another heap. -/
def released (s : Stats) (bytes : Nat) : Stats :=
  { s with
    deallocations := s.deallocations + 1
    liveBlocks := s.liveBlocks - 1
    liveBytes := s.liveBytes - bytes }

def kept (s : Stats) (bytes : Nat) : Stats :=
  { s with keptBlocks := s.keptBlocks + 1, keptBytes := s.keptBytes + bytes }

/-- The quarantine was emptied of `n` blocks. -/
def cleared (s : Stats) (n : Nat) : Stats :=
  { s with reclaimed := s.reclaimed + n, keptBlocks := 0, keptBytes := 0 }

def registered (s : Stats) : Stats := { s with registrations := s.registrations + 1 }

def invalidated (s : Stats) (n : Nat) : Stats := { s with invalidations := s.invalidations + n }

def describe (s : Stats) : String :=
  Text.fields "HeapStats"
    [("allocations", toString s.allocations), ("deallocations", toString s.deallocations),
     ("live_blocks", toString s.liveBlocks), ("live_bytes", toString s.liveBytes),
     ("zombie_blocks", toString s.keptBlocks), ("zombie_bytes", toString s.keptBytes),
     ("reclaimed_zombies", toString s.reclaimed),
     ("soft_registrations", toString s.registrations),
     ("invalidations", toString s.invalidations)]

end Stats

end Custody
