import Custody.Row
import Custody.Session.Machine

/-! Commands on rows of numbers, which have names. -/

namespace Custody

/-- What is asked of one row. -/
inductive RowCommand where
  | build (items : List Int64)
  /-- The row `s`, `s + d`, and so on. -/
  | progression (s d : Int)
  | zero
  | copy (other : String)
  | swap (other : String)
  | read (m : Manner) (index : UInt64)
  | write (m : Manner) (index : UInt64) (value : Int64)
  | front
  | back
  | fill (value : Int64)
  | same (other : String)
  | describe
  | reverse
  /-- Steps through the row from either end. -/
  | walk (steps : List Int64) (fromEnd : Bool)
  /-- Whether the ends of a copy of the other row are positions of this row, and of
  that copy. -/
  | foreign (other : String)
  deriving DecidableEq, Repr

namespace RowCommand

variable {n : Nat}

abbrev Rows (n : Nat) := Cabinet (Row Int64 n)

def row (name : String) : Machine (Rows n) (Row Int64 n) := do (← get).get name

def keep (name : String) (r : Row Int64 n) : Machine (Rows n) Unit := modify (·.put name r)

def number (v : Int64) : Report := .number v.toInt

/-- Where each step of a walk leads, and the position at its end. -/
def walkFrom (p : Spot Int64) : List Int64 → List Report × Spot Int64
  | [] => ([], p)
  | d :: rest =>
    let q := p.move (.advance d)
    let seen := Report.row [.word q.position.index, .optional number q.get.toOption]
    let (reports, last) := walkFrom q rest
    (seen :: reports, last)

def run (name : String) : RowCommand → Machine (Rows n) Report
  | .build items => do
    match Row.ofList? n items with
    | some r => keep name r
    | none => Machine.fail .inapplicable
    return .nothing
  | .progression s d => do
    keep name (Row.progression n s d)
    return .nothing
  | .zero => do
    keep name (Row.zero n)
    return .nothing
  | .copy other => do
    keep name (← row other)
    return .nothing
  | .swap other => do
    let (a, b) := (← row name, ← row other)
    keep name b
    keep other a
    return .nothing
  | .read m index => do return number (← Machine.access m (Row.get (← row name) index))
  | .write m index value => do
    keep name (← Machine.access m (Row.put (← row name) index value))
    return .nothing
  | .front => do return number (← Machine.access .insist (Row.front (← row name)))
  | .back => do return number (← Machine.access .insist (Row.back (← row name)))
  | .fill value => do
    let _ ← row name
    keep name (Vector.replicate n value)
    return .nothing
  | .same other => do return .flag ((← row name) == (← row other))
  | .describe => do
    return .text (describeRow ((← row name).toList.map fun v => toString v.toInt) .tracked)
  | .reverse => do
    keep name (← row name).reverse
    return .nothing
  | .walk steps fromEnd => do
    let s := Row.slice (← row name) 0
    let (seen, last) := walkFrom (if fromEnd then .finish s else .start s) steps
    return .row [.row seen, .flag (last.isWithin s), .row (last.values.map number)]
  | .foreign other => do
    let own := Row.slice (← row name) 0
    -- the copy lies apart from the row, also if both are empty
    let copy := Row.slice (← row other) (8 * n + 8)
    return .row
      [.flag ((Spot.start copy).isWithin own), .flag ((Spot.finish copy).isWithin copy)]

/-- What a row holds, its length and whether it is empty. -/
def state (name : String) : Machine (Rows n) Report := do
  let r ← row name
  return .row [.row (r.toList.map number), .natural n, .flag (n = 0)]

end RowCommand

end Custody
