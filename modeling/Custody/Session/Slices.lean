import Custody.Session.Machine
import Custody.Slice

/-! Commands on positions in slices of one buffer of numbers. -/

namespace Custody

/-- The slices, by number, and the positions, by name. -/
structure Ruler where
  slices : Array (Slice Int64)
  spots : Cabinet (Spot Int64)

/-- A buffer of words with the parts of it that are walked. -/
def Ruler.start (buffer : List Int64) (parts : List (Nat × Nat)) : Ruler :=
  ⟨(parts.map fun p => Slice.part 0 8 buffer p.1 p.2).toArray, .empty⟩

/-- What is asked of one position. -/
inductive SpotCommand where
  | place (slice : Nat) (index : UInt64)
  | placeEnd (slice : Nat)
  /-- Steps and answers with the new index. -/
  | step (m : Position.Move)
  /-- Takes the place of a moved copy. -/
  | shift (m : Position.Move)
  | copy (other : String)
  | read (m : Manner)
  | away (n : Int64)
  | values
  | sameSlice (other : String)
  | isWithin (slice : Nat)
  | distance (m : Manner) (other : String)
  | same (other : String)
  | order (other : String)
  | relations (other : String)
  | describe
  deriving DecidableEq, Repr

namespace SpotCommand

def slice (i : Nat) : Machine Ruler (Slice Int64) := do
  match (← get).slices[i]? with
  | some s => return s
  | none => Machine.fail .inapplicable

def spot (name : String) : Machine Ruler (Spot Int64) := do (← get).spots.get name

def keep (name : String) (p : Spot Int64) : Machine Ruler Unit :=
  modify fun r => { r with spots := r.spots.put name p }

def number (v : Int64) : Report := .number v.toInt

def run (name : String) : SpotCommand → Machine Ruler Report
  | .place s index => do
    keep name (.place (← slice s) index)
    return .nothing
  | .placeEnd s => do
    keep name (.finish (← slice s))
    return .nothing
  | .step m => do
    let p := (← spot name).move m
    keep name p
    return .word p.position.index
  | .shift m => do
    keep name ((← spot name).move m)
    return .nothing
  | .copy other => do
    keep name (← spot other)
    return .nothing
  | .read m => do return number (← Machine.access m (← spot name).get)
  | .away n => do return number (← Machine.access .attempt ((← spot name).away n))
  | .values => do
    let values := (← spot name).values
    return .row [.row (values.map number), .natural values.length]
  | .sameSlice other => do return .flag ((← spot name).slice.same (← spot other).slice)
  | .isWithin s => do return .flag ((← spot name).isWithin (← slice s))
  | .distance m other => do
    return number (← Machine.inManner m ((← spot name).distance (← spot other)))
  | .same other => do return .flag (← Machine.access .insist ((← spot name).same (← spot other)))
  | .order other => do return .order (← Machine.access .insist ((← spot name).order (← spot other)))
  | .relations other => do
    let o ← Machine.access .insist ((← spot name).order (← spot other))
    return .row [.flag o.isLT, .flag o.isLE, .flag o.isGT, .flag o.isGE]
  | .describe => do return .text ((← spot name).describe fun v => toString v.toInt)

/-- The result of a command with where the position is after it. -/
def answer (name : String) (c : SpotCommand) : Machine Ruler Report := do
  let result ← c.run name
  let p ← spot name
  return .row [result, .word p.position.index, .flag p.position.isEnd]

end SpotCommand

end Custody
