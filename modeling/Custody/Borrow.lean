import Custody.Error

/-! The borrows of one object: any number of readers, or one writer. -/

namespace Custody

inductive Borrow where
  | readers (n : Nat)
  | writer
  deriving DecidableEq, Repr

namespace Borrow

def none : Borrow := .readers 0

def isHeld : Borrow → Bool
  | .readers n => n ≠ 0
  | .writer => true

/-- One more reader; refused under a writer. -/
def share : Borrow → Except AccessRefusal Borrow
  | .readers n => .ok (.readers (n + 1))
  | .writer => .error (.conflict .exclusive)

/-- The only writer; refused under any borrow. -/
def claim : Borrow → Except AccessRefusal Borrow
  | .readers 0 => .ok .writer
  | .readers _ => .error (.conflict .shared)
  | .writer => .error (.conflict .exclusive)

def take (b : Borrow) : Access → Except AccessRefusal Borrow
  | .shared => b.share
  | .exclusive => b.claim

/-- One borrow of the given access ends. -/
def release : Borrow → Access → Borrow
  | .readers n, .shared => .readers (n - 1)
  | .writer, .exclusive => .readers 0
  | b, _ => b

end Borrow

end Custody
