import Custody.Session.Report
import Custody.Session.Run
import Custody.Workload.Chain
import Custody.Workload.Views

/-! Workloads on heaps of their own, with what they count on the way. -/

namespace Custody

inductive Workload where
  /-- A chain of nodes that is summed and dropped. -/
  | chain (n : Nat)
  /-- Owners under many handles; every `every`-th owner is reset, then all go. -/
  | resets (n m every : Nat)
  /-- Owners of values that report their end, cut down to `m` of them. -/
  | endings (n m : Nat)
  /-- Owners under many handles, in either mode. -/
  | observed (n m : Nat) (mode : Mode)
  /-- Building and dropping on two further heaps, and an array. -/
  | turnovers (n m : Nat)
  deriving DecidableEq, Repr

/-- The counters without sizes. -/
def Report.counts (s : Stats) : Report :=
  .row <| [s.allocations, s.deallocations, s.liveBlocks, s.keptBlocks, s.reclaimed,
    s.registrations, s.invalidations].map .natural

namespace Workload

open Op

/-- A heap that has to be valid. -/
def heapWith (c : Config) : Op HeapId := do
  match ← ExceptT.lift (Act.openHeap c) with
  | .ok h => return h
  | .error e => panic (.badConfig e)

def counts (h : HeapId) : Op Report := look fun w => .counts (w.heap h).stats

def validWatchers (ss : List Nat) : Op Report := look fun w => .natural (w.validCount ss)

/-- Every `n`-th of some things, from the first one on; all of them if `n` is zero. -/
def everyNth (n : Nat) (xs : List Nat) : List Nat :=
  xs.zipIdx.filterMap fun p => if p.2 % max n 1 = 0 then some p.1 else none

/-- Builds and drops an object of 64 bytes `n` times; how many blocks are kept. -/
def turnover (h : HeapId) (n : Nat) : Op Report := do
  (List.range n).forM fun i => do
    let plan : Plan := ⟨64, fun _ => .byte (UInt8.ofNat i), none⟩
    dropOwner (← inManner .insist (build h ⟨.row 64, .byte, .tracked⟩ plan))
  look fun w => .natural (w.heap h).quarantine.count

/-- What is counted in a workload on heap `h`. -/
def run (h : HeapId) : Workload → Op Report
  | .chain n => do
    let head ← newChain h n
    let sum ← sumOfChain head
    let built ← counts h
    let watcher ← inManner .insist (watch (← look (·.owner head)))
    dropOwner head
    let dropped ← counts h
    let valid ← look fun w => w.isValid (w.soft (.soft watcher))
    let reclaimed ← ExceptT.lift (Act.reclaim h)
    return .row [.natural sum.toNat, built, dropped, .flag valid, .natural reclaimed]
  | .resets n m every => do
    let os ← owners h .tracked n
    let ss ← watchEach m os
    let before ← validWatchers ss
    (everyNth every os).forM fun i => reset .insist (.owner i)
    let halved := Report.row [← validWatchers ss, ← counts h]
    dropOwners os
    let cleared := Report.row [← validWatchers ss, ← counts h]
    dropSofts ss
    return .row [before, halved, cleared, ← counts h]
  | .endings n m => do
    let os ← (List.range n).mapM fun v =>
      inManner .insist (build h nodeKind (.single (.node (Int64.ofNat v) .plain)))
    let ss ← watchEach 1 os
    dropOwners (os.drop m)
    let dropped ← look (·.dropCount)
    let readable ← look (·.readable ss)
    dropOwners (os.take m)
    return .row [.natural dropped, .numbers (readable.map (·.toInt)),
      .natural (← look (·.dropCount)), ← counts h]
  | .observed n m mode => do
    let os ← owners h mode n
    let ss ← watchEach m os
    let observed ← look fun w => Report.row <| os.map fun i =>
      .row [.natural (w.observers (w.owner i)), .natural (w.observerSlots (w.owner i))]
    let built ← counts h
    dropOwners os
    return .row [observed, .natural ss.length, built, ← counts h, ← validWatchers ss]
  | .turnovers n m => do
    let checked ← heapWith .standard
    let plain ← heapWith .unkept
    let kept ← turnover checked n
    let unkept ← turnover plain n
    let plan : Plan := ⟨UInt64.ofNat m, fun i => .int (Int64.ofNat i), none⟩
    let a ← inManner .insist (build checked ⟨.array, .int, .tracked⟩ plan)
    let items ← look fun w => match w.inspect (.owner a) .shared with
      | .ok (_, items) => items.map fun i => i.value.toInt
      | .error _ => []
    return .row [kept, unkept, ← counts checked, ← counts plain, .numbers items]

/-- What comes of a workload in a world of its own. -/
def result (f : Workload) (c : Config) : Except Fault Report :=
  let (result, w) := (heapWith c >>= f.run).run.run (.start World.defaultGrant)
  match (Act.recoverAll.run w).1 with
  | some p => .error (.panicked p)
  | none => result

end Workload

end Custody
