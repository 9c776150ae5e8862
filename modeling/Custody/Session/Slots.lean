import Custody.Session.Machine
import Custody.SlotTable

/-! Commands on a slot table. Tickets are referred to by the order in which they were
issued, or are written out. -/

namespace Custody

/-- A slot table and the tickets that it has issued. -/
structure Registrar where
  table : SlotTable
  issued : Array Ticket
  deriving DecidableEq, Repr

def Registrar.start (growth : UInt64) (cap : UInt32) : Registrar :=
  ⟨.empty growth cap World.defaultGrant, #[]⟩

/-- A ticket that was issued, or any ticket. -/
inductive TicketName where
  | issued (i : Nat)
  | written (t : Ticket)
  deriving DecidableEq, Repr

inductive SlotCommand where
  | insert (s : Standing)
  | insertMany (count : Nat) (s : Standing)
  | remove (t : TicketName)
  | standing (t : TicketName)
  | isLive (t : TicketName)
  | dismissAll
  | entries
  /-- Turns the standing of every `n`-th slot, if it is used. -/
  | turn (n : Nat)
  /-- Registers an observer and lets it go again, a number of times. -/
  | recycle (count : Nat)
  | pass
  deriving DecidableEq, Repr

def Standing.turned : Standing → Standing
  | .live => .gone
  | .gone => .live

namespace SlotTable

/-- Turns the standing of the used slots whose index is a multiple of `n`. -/
def turn (t : SlotTable) (n : Nat) : SlotTable :=
  t.update fun k s => if k.index.toNat % n = 0 then s.turned else s

/-- How many used slots have an index that is a multiple of `n`. -/
def multiples (t : SlotTable) (n : Nat) : Nat :=
  (t.entries.filter fun e => e.1.index.toNat % n = 0).length

end SlotTable

namespace SlotCommand

def resolve : TicketName → Machine Registrar Ticket
  | .written t => pure t
  | .issued i => do
    match (← get).issued[i]? with
    | some t => return t
    | none => Machine.fail .inapplicable

def insertOne (s : Standing) : Machine Registrar Ticket := do
  let t ← Machine.heap (← get).table.nextTicket
  modify fun r => { r with table := r.table.enrol s }
  return t

/-- Registers an observer and numbers its ticket. -/
def issue (s : Standing) : Machine Registrar Ticket := do
  let t ← insertOne s
  modify fun r => { r with issued := r.issued.push t }
  return t

def removeOne (t : Ticket) : Machine Registrar Bool := do
  let found := ((← get).table.find? t).isSome
  modify fun r => { r with table := (r.table.remove t).2 }
  return found

/-- Registers and removes `count` times; the last ticket. -/
def recycleFor : Nat → Option Ticket → Machine Registrar (Option Ticket)
  | 0, last => return last
  | count + 1, _ => do
    let t ← insertOne .live
    let _ ← removeOne t
    recycleFor count (some t)

def issueFor (s : Standing) : Nat → Machine Registrar (List Ticket)
  | 0 => return []
  | count + 1 => do
    let t ← issue s
    return t :: (← issueFor s count)

def run : SlotCommand → Machine Registrar Report
  | .insert s => do return .ticket (some (← issue s))
  | .insertMany count s => do return .row ((← issueFor s count).map fun t => .ticket (some t))
  | .remove t => do return .flag (← removeOne (← resolve t))
  | .standing t => do
    let k ← resolve t
    return .optional (.text ·.label) ((← get).table.find? k)
  | .isLive t => do
    let k ← resolve t
    return .flag ((← get).table.isLive k)
  | .dismissAll => do
    let (n, table) := (← get).table.dismissAll
    modify fun r => { r with table := table }
    return .natural n
  | .entries => do
    return .row ((← get).table.entries.map fun e => .row [.ticket (some e.1), .text e.2.label])
  | .turn n => do
    let step := max n 1
    let count := (← get).table.multiples step
    modify fun r => { r with table := r.table.turn step }
    return .natural count
  | .recycle count => do return .ticket (← recycleFor count none)
  | .pass => return .nothing

/-- The result of a command with the number of observers, the capacity and whether
the table has grown. -/
def answer (c : SlotCommand) : Machine Registrar Report := do
  let result ← c.run
  let t := (← get).table
  return .row [result, .natural t.count, .natural t.capacity, .flag t.hasGrown]

end SlotCommand

end Custody
