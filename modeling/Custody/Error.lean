import Custody.Text.Fields
import Custody.Text.Quoted

/-! Why an operation is refused. Each cause is a constructor; `message` is its
wording and `describe` names the cause with its data. A cause that the caller
did not ask to hear about becomes a `Panic`. -/

namespace Custody

/-- How an object is borrowed: by readers, or by one writer. -/
inductive Access where
  | shared
  | exclusive
  deriving DecidableEq, Repr

namespace Access

def word : Access → String
  | .shared => "shared"
  | .exclusive => "exclusive"

def label : Access → String
  | .shared => "Shared"
  | .exclusive => "Exclusive"

end Access

/-- Refusals of a handle or of a position in a range. -/
inductive AccessRefusal where
  /-- The handle never referred to anything. -/
  | null
  /-- The owner of the observed allocation is gone. -/
  | gone
  | outOfRange (index length : Nat)
  /-- Two positions in different ranges were compared or subtracted. -/
  | unrelated
  /-- The allocation is borrowed in a way that excludes the request. -/
  | conflict (held : Access)
  /-- The owner tried to destroy an object that a guard still borrows. -/
  | destroyedWhileBorrowed
  deriving DecidableEq, Repr

namespace AccessRefusal

def message : AccessRefusal → String
  | .null => "null handle access"
  | .gone => "access through invalidated handle (owner destroyed)"
  | .outOfRange index length => s!"index {index} out of range for length {length}"
  | .unrelated => "comparing unrelated ranges"
  | .conflict held => "allocation already has an active " ++ held.word ++ " borrow"
  | .destroyedWhileBorrowed => "allocation destroyed while a borrow guard is alive"

def label : AccessRefusal → String
  | .null => "NullHandle"
  | .gone => "Invalidated"
  | .outOfRange .. => "OutOfRange"
  | .unrelated => "UnrelatedRanges"
  | .conflict _ => "BorrowConflict"
  | .destroyedWhileBorrowed => "DestroyedWhileBorrowed"

def describe (e : AccessRefusal) : String :=
  Text.fields e.label <| match e with
    | .outOfRange index length => [("index", toString index), ("len", toString length)]
    | .conflict held => [("mode", held.label)]
    | _ => []

end AccessRefusal

/-- Refusals of a heap or of an allocation's slot table. -/
inductive HeapRefusal where
  | slotsExhausted (capacity : Nat)
  /-- The allocator does not grant a block of this size. -/
  | allocationFailed (size align : Nat)
  /-- No block can be laid out for so many elements. -/
  | layoutOverflow (elements : Nat)
  /-- Detection cannot be switched while ranges are recorded. -/
  | detectionPinned (ranges : Nat)
  deriving DecidableEq, Repr

namespace HeapRefusal

def message : HeapRefusal → String
  | .slotsExhausted capacity => s!"control block exhausted: {capacity} observer slots in use"
  | .allocationFailed size align => s!"allocation of {size} bytes (align {align}) failed"
  | .layoutOverflow elements =>
    s!"array of {elements} elements exceeds the maximum allocation size"
  | .detectionPinned ranges =>
    s!"cannot toggle early detection while {ranges} zombie ranges are recorded"

def label : HeapRefusal → String
  | .slotsExhausted _ => "SlotExhausted"
  | .allocationFailed .. => "AllocationFailed"
  | .layoutOverflow _ => "LayoutOverflow"
  | .detectionPinned _ => "DetectionToggleWithZombies"

def describe (e : HeapRefusal) : String :=
  Text.fields e.label <| match e with
    | .slotsExhausted capacity => [("capacity", toString capacity)]
    | .allocationFailed size align => [("size", toString size), ("align", toString align)]
    | .layoutOverflow elements => [("elements", toString elements)]
    | .detectionPinned ranges => [("zombies", toString ranges)]

end HeapRefusal

/-- Refusals of a heap configuration. -/
inductive ConfigRefusal where
  | growthTooSmall (configured : Nat)
  /-- The cap on slots does not cover the slots that every table starts with. -/
  | capBelowInitial (configured initial : Nat)
  deriving DecidableEq, Repr

namespace ConfigRefusal

def message : ConfigRefusal → String
  | .growthTooSmall configured =>
    s!"slot growth factor {configured} is below the minimum of 2"
  | .capBelowInitial configured initial =>
    s!"max_slots_per_block {configured} is below the {initial} inline slots"

def label : ConfigRefusal → String
  | .growthTooSmall _ => "GrowthFactorTooSmall"
  | .capBelowInitial .. => "MaxSlotsBelowInline"

def describe (e : ConfigRefusal) : String :=
  Text.fields e.label <| match e with
    | .growthTooSmall configured => [("configured", toString configured)]
    | .capBelowInitial configured initial =>
      [("configured", toString configured), ("inline", toString initial)]

end ConfigRefusal

/-- An attribute name that the checker does not know, as it was written. -/
structure AttributeRefusal where
  written : String
  deriving DecidableEq, Repr

namespace AttributeRefusal

def message (e : AttributeRefusal) : String := "unknown checker attribute '" ++ e.written ++ "'"

def label (_ : AttributeRefusal) : String := "UnknownAttribute"

def describe (e : AttributeRefusal) : String := e.label ++ "(" ++ Text.quoted e.written ++ ")"

end AttributeRefusal

/-- Any refusal. -/
inductive Refusal where
  | access (e : AccessRefusal)
  | heap (e : HeapRefusal)
  | config (e : ConfigRefusal)
  | attribute (e : AttributeRefusal)
  deriving DecidableEq, Repr

namespace Refusal

def message : Refusal → String
  | .access e => e.message
  | .heap e => e.message
  | .config e => e.message
  | .attribute e => e.message

def label : Refusal → String
  | .access e => e.label
  | .heap e => e.label
  | .config e => e.label
  | .attribute e => e.label

def describe : Refusal → String
  | .access e => e.describe
  | .heap e => e.describe
  | .config e => e.describe
  | .attribute e => e.describe

end Refusal

/-- Why a run of operations was abandoned midway. -/
inductive Panic where
  /-- A refusal met by an operation that has no way to report it. -/
  | fatal (cause : Refusal)
  /-- A finalizer gave up on the object with this value. -/
  | finalizer (value : Int)
  /-- Building the element at this index gave up. -/
  | builder (index : Nat)
  /-- The surrounding program is already unwinding. -/
  | unwinding
  /-- A difference whose negation is not a signed word. -/
  | negation
  /-- A sum that is not a machine word. -/
  | addition
  /-- A workload was given a configuration that does not hold. -/
  | badConfig (cause : ConfigRefusal)
  deriving DecidableEq, Repr

def Panic.message : Panic → String
  | .fatal cause => "safemem: " ++ cause.message
  | .finalizer value => s!"bomb {value}"
  | .builder index => s!"init {index}"
  | .unwinding => "unwinding"
  | .negation => "attempt to negate with overflow"
  | .addition => "attempt to add with overflow"
  | .badConfig cause => "test heap config should be valid: " ++ cause.describe

/-- How an operation ends when it does not succeed. -/
inductive Fault where
  | refused (cause : Refusal)
  | panicked (panic : Panic)
  /-- The request names something that does not exist or is on loan. -/
  | inapplicable
  deriving DecidableEq, Repr

end Custody
