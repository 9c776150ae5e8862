import Custody.Handle.Range
import Custody.Session.Report
import Custody.Session.Step

/-! Commands on heaps, raw blocks and addresses. -/

namespace Custody

inductive MemoryCommand where
  | openHeap (heap : String) (config : Config)
  /-- Names the heap that is used where none is given. -/
  | useCurrent (heap : String)
  | shareHeap (heap other : String)
  | forgetHeap (heap : String)
  | equalHeaps (heap other : String)
  | describeHeap (heap : String)
  | reclaim (heap : String)
  | setDetecting (heap : String) (on : Bool)
  /-- Whether an address lies in no recorded block. -/
  | isClear (heap address : String)
  | isClearAt (heap : String) (address : Nat)
  /-- Some bytes of kept blocks. -/
  | peek (heap address : String) (count : Nat)
  | allot (block heap : String) (size align elements : Nat)
  | fill (block : String) (byte : UInt8)
  | giveBack (block heap : String)
  | contains (block address : String)
  | offset (address origin : String) (distance : Int)
  | difference (address origin : String)
  deriving DecidableEq, Repr

namespace World

def heap (w : World) (h : HeapId) : Heap := (w.heaps[h]?).getD (.fresh .standard)

/-- The byte at an address of a kept block; zero where it is not known. -/
def keptByte (w : World) (h : HeapId) (address : Nat) : Nat :=
  (((w.heap h).quarantine.byte? address).map UInt8.toNat).getD 0

def viewHeap (w : World) (h : HeapId) : Report :=
  let heap := w.heap h
  .row [.natural heap.quarantine.count, .flag heap.detects, .flag heap.config.keeps,
    .text heap.describe]

/-- A block, with a fixed word for its address. -/
def viewBlock (b : Block) : Report :=
  .row [.natural b.size, .natural b.payloadSize, .natural b.elements, .natural b.offset,
    .natural (b.payload % b.layout.align), .text (b.describe "BASE")]

end World

namespace MemoryCommand

open Step

/-- The block that a name stands for. -/
def looseBlock (name : String) : Step (Nat × Block) := do
  let b ← named .block name
  match ← look (·.loose? b) with
  | some l => return (b, l.block)
  | none => throw .inapplicable

def run : MemoryCommand → Step Report
  | .openHeap heap config => do
    match ← Step.lift (ExceptT.lift (Act.openHeap config)) with
    | .ok h => do
      rename .heap heap h
      return .nothing
    | .error e => throw (.refused (.config e))
  | .useCurrent heap => do
    rename .heap heap World.currentHeap
    return .nothing
  | .shareHeap heap other => do
    rename .heap heap (← named .heap other)
    return .nothing
  | .forgetHeap heap => do
    let known := ((← names).find? .heap heap).isSome
    modifyNames (·.erase .heap heap)
    return .flag known
  | .equalHeaps heap other => return .flag ((← named .heap heap) = (← named .heap other))
  | .describeHeap heap => do
    let h ← named .heap heap
    look (·.viewHeap h)
  | .reclaim heap => do
    let h ← named .heap heap
    return .natural (← Step.lift (ExceptT.lift (Act.reclaim h)))
  | .setDetecting heap on => do
    let h ← named .heap heap
    return .flag (← Op.granted (Act.setDetecting h on))
  | .isClear heap address => do
    let h ← named .heap heap
    let a ← named .address address
    return .flag (← look fun w => (w.heap h).quarantine.isClear a)
  | .isClearAt heap address => do
    let h ← named .heap heap
    return .flag (← look fun w => (w.heap h).quarantine.isClear address)
  | .peek heap address count => do
    let h ← named .heap heap
    let a ← named .address address
    return .row (← look fun w => (List.range count).map fun i => .natural (w.keptByte h (a + i)))
  | .allot block heap size align elements => do
    let h ← named .heap heap
    let b ← Op.granted (Act.allot h ⟨size, align⟩ elements)
    rename .block block b
    match ← look (·.loose? b) with
    | none => throw .inapplicable
    | some l => do
      rename .address block l.block.payload
      rename .address (block ++ ".base") l.block.base
      return World.viewBlock l.block
  | .fill block byte => do
    let (b, raw) ← looseBlock block
    Op.act (.fill b byte)
    return .natural raw.payloadSize
  | .giveBack block heap => do
    let (b, _) ← looseBlock block
    let h ← named .heap heap
    modifyNames (·.erase .block block)
    Op.act (.giveBack b h)
    return .nothing
  | .contains block address => do
    let (_, raw) ← looseBlock block
    let a ← named .address address
    return .row [.flag (raw.contains a), .flag (raw.contains a)]
  | .offset address origin distance => do
    let a ← named .address origin
    rename .address address (World.displace a distance)
    return .nothing
  | .difference address origin => do
    return .number (World.distance (← named .address address) (← named .address origin))

end MemoryCommand

end Custody
