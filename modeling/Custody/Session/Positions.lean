import Custody.Position
import Custody.Session.Machine

/-! Commands on a position. Each answers with its result and the position that it
leaves. -/

namespace Custody

inductive PositionCommand where
  | move (m : Position.Move)
  | here
  | away (n : Int64)
  | distance (other : Position)
  | order (other : Position)
  | describe
  deriving DecidableEq, Repr

namespace PositionCommand

def run : PositionCommand → Machine Position Report
  | .move m => do
    modify (·.move m)
    return .nothing
  | .here => do return .word (← Machine.access .attempt (← get).here)
  | .away n => do return .word (← Machine.access .attempt ((← get).away n))
  | .distance other => do
    let n ← Machine.inManner .attempt (((← get).distance other).mapError .panicked)
    return .number n.toInt
  | .order other => do return .row [.order ((← get).order other), .flag ((← get) = other)]
  | .describe => do return .text (← get).describe

/-- The result of a command with the index, the length and whether the position is
the end and the range is empty. -/
def answer (c : PositionCommand) : Machine Position Report := do
  let result ← c.run
  let p ← get
  return .row [result, .word p.index, .word p.length, .flag p.isEnd, .flag p.isEmpty]

end PositionCommand

end Custody
