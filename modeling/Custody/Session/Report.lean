import Custody.Heap.Stats
import Custody.World.Basic

/-! What a step of a session answers: truth values, numbers, texts, and rows of
answers. -/

namespace Custody

inductive Report where
  | nothing
  | flag (b : Bool)
  | number (n : Int)
  | text (s : String)
  | row (items : List Report)

namespace Report

def natural (n : Nat) : Report := .number n

def word (n : UInt64) : Report := natural n.toNat

def numbers (ns : List Int) : Report := .row (ns.map .number)

def optional {α : Type} (f : α → Report) : Option α → Report
  | some a => f a
  | none => .nothing

/-- Less, equal and greater as -1, 0 and 1. -/
def order : Ordering → Report
  | .lt => .number (-1)
  | .eq => .number 0
  | .gt => .number 1

def ticket (t : Option Ticket) : Report := optional (fun t => .text t.render) t

/-- The identifier of an allocation. -/
def identifier (r : Option RecordId) : Report :=
  optional (fun r => .text ("#" ++ toString (World.identifier r))) r

/-- Where a position is, and whether that is the end. -/
def position (p : Position) : Report := .row [word p.index, .flag p.isEnd]

def stats (s : Stats) : Report :=
  .row <| [s.allocations, s.deallocations, s.liveBlocks, s.liveBytes, s.keptBlocks, s.keptBytes,
    s.reclaimed, s.registrations, s.invalidations].map natural

def event : Event → Report
  | .dropped v => .row [.text "drop", .number v.toInt]
  | .probed v seen valid copy =>
    .row
      [.text "probe", .number v.toInt,
       match seen with
       | .ok n => .number n.toInt
       | .error e => .text e.message,
       .flag valid,
       match copy with
       | some (null, valid) => .row [.flag null, .flag valid]
       | none => .text "exhausted"]

end Report

end Custody
