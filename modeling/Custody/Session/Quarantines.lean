import Custody.Quarantine
import Custody.Session.Machine

/-! Commands on a bare quarantine, with blocks that no heap counts. -/

namespace Custody

/-- A block in the hands of the program, or the base of one that went into
quarantine. -/
inductive Parcel where
  | held (b : Block)
  | sent (base : Nat)
  deriving DecidableEq, Repr

def Parcel.base : Parcel → Nat
  | .held b => b.base
  | .sent base => base

structure Depot where
  arena : Arena
  quarantine : Quarantine
  parcels : Cabinet Parcel

def Depot.start (detecting : Bool) : Depot :=
  ⟨.fresh World.defaultGrant, .empty detecting, .empty⟩

inductive QuarantineCommand where
  | allocate (block : String) (size align : Nat)
  | push (block : String)
  /-- Whether the address at a distance from a block's base is in no recorded
  block. -/
  | isClear (block : String) (distance : Int)
  | isClearAt (address : Nat)
  | reclaim
  | setDetecting (on : Bool)
  /-- A new quarantine instead of the present one. -/
  | renew (on : Bool)
  deriving DecidableEq, Repr

namespace QuarantineCommand

def parcel (name : String) : Machine Depot Parcel := do (← get).parcels.get name

def run : QuarantineCommand → Machine Depot Report
  | .allocate block size align => do
    let (b, arena) ← Machine.heap ((← get).arena.allocate ⟨size, align⟩ 1)
    modify fun d => { d with arena := arena, parcels := d.parcels.put block (.held b) }
    return .natural b.size
  | .push block => do
    match ← parcel block with
    | .sent _ => Machine.fail .inapplicable
    | .held b =>
      modify fun d =>
        { d with
          quarantine := d.quarantine.push b
          parcels := d.parcels.put block (.sent b.base) }
    return .nothing
  | .isClear block distance => do
    let base := (← parcel block).base
    let address := (((base : Int) + distance) % 18446744073709551616).toNat
    return .flag ((← get).quarantine.isClear address)
  | .isClearAt address => do return .flag ((← get).quarantine.isClear address)
  | .reclaim => do
    let (blocks, quarantine) := (← get).quarantine.reclaim
    modify fun d => { d with quarantine := quarantine }
    return .natural blocks.length
  | .setDetecting on => do
    let (before, quarantine) ← Machine.heap ((← get).quarantine.setDetecting on)
    modify fun d => { d with quarantine := quarantine }
    return .flag before
  | .renew on => do
    modify fun d => { d with quarantine := .empty on }
    return .nothing

/-- The result of a command with the number and size of the blocks kept, the number
of ranges recorded, whether detection is on, and whether nothing is kept. -/
def answer (c : QuarantineCommand) : Machine Depot Report := do
  let result ← c.run
  let q := (← get).quarantine
  return .row [result, .natural q.count, .natural q.bytes, .natural q.index.size,
    .flag q.detecting, .flag (q.count = 0)]

end QuarantineCommand

end Custody
