import Custody.World.Program

/-! Owning handles: building an object, resetting, dropping and moving its owner,
and borrowing through it. -/

namespace Custody

/-- Where an owner is: in a variable, or in an element of an object that a guard borrows
exclusively. -/
inductive OwnerPlace where
  | owner (i : Nat)
  | link (guard element : Nat)
  deriving DecidableEq, Repr

namespace OwnerPlace

/-- Destroys what the owner in the place holds. -/
def reset : OwnerPlace → Action
  | .owner i => .resetOwner i
  | .link g i => .resetLink g i

/-- Exchanges the owner in the place with the one in a variable. -/
def exchange (j : Nat) : OwnerPlace → Action
  | .owner i => .swapOwners i j
  | .link g i => .exchangeLink g i j

end OwnerPlace

/-- A value that an owner is to hold. The handles of a node are in variables, which are left
empty; a value of another kind has none. -/
inductive Value where
  | plain (kind : Kind) (plan : Plan)
  | node (mode : Mode) (number : Int64) (finalizer : Finalizer) (next : Nat) (prev : SoftPlace)

namespace Value

def kind : Value → Kind
  | .plain k _ => k
  | .node m .. => ⟨.one, .node, m⟩

/-- The plan of the object, without the handles. -/
def plan : Value → Plan
  | .plain _ p => p
  | .node _ v f .. => .single (.node v f)

end Value

namespace World

/-- The owner in a place; an empty one if there is no such place. -/
def ownerAt (w : World) : OwnerPlace → Owner
  | .owner i => w.owner i
  | .link g i => ((w.writable? g).bind fun guard => w.element? guard i).bind Item.link

/-- Destroys what the owner in a place holds, and leaves it empty. -/
def resetAt (w : World) : OwnerPlace → Except AccessRefusal Unit × World
  | .owner i => w.resetOwner i
  | .link g i => w.resetLink g i

theorem run_reset (o : OwnerPlace) (w : World) : o.reset.run w = (w.resetAt o).2 := by
  cases o <;> rfl

/-- The heap of an owner's allocation. -/
def heapOf (w : World) (o : Owner) : Option HeapId := (o.bind (w.records[·]?)).map Record.heap

/-- How many observers an owner's allocation has registered. -/
def observers (w : World) (o : Owner) : Nat :=
  ((o.bind (w.records[·]?)).map fun r => r.slots.count).getD 0

/-- How many slots an owner's allocation has for observers. -/
def observerSlots (w : World) (o : Owner) : Nat :=
  ((o.bind (w.records[·]?)).map fun r => r.slots.capacity).getD 0

/-- Whether an address lies in the payload of an owner's block. -/
def ownsAddress (w : World) (o : Owner) (address : Nat) : Bool :=
  (o.bind (w.records[·]?)).any fun r => r.contains address

/-- The element count of a range, zero where there is none. -/
def ownerLength (w : World) (o : Owner) : Nat := w.rangeLength o

/-- The text of an allocation's identifier inside other texts. -/
def describeId (r : RecordId) : String := "AllocationId(" ++ toString (identifier r) ++ ")"

def describeOwner (w : World) (o : Owner) : String :=
  match o with
  | none => "OwningPtr(empty)"
  | some r =>
    let mode := (w.records[r]?.map fun rec => rec.kind.mode).getD .tracked
    Text.fields "OwningPtr"
      [("id", describeId r), ("mode", mode.label), ("observers", toString (w.observers o))]

end World

def Act.resetAt (o : OwnerPlace) : Act (Except AccessRefusal Unit) :=
  does (·.resetAt o) o.reset (World.run_reset o)

namespace Op

/-- Builds a range of elements; the variable of its owner. -/
def buildRange (h : HeapId) (k : Kind) (p : Plan) : Op Nat := do
  let i ← granted (Act.construct h k p)
  quiesce
  return i

/-- Does `body` with a guard, which is released however that ends. -/
def borrowing {α : Type} (s : Source) (a : Access) (body : Nat → Op α) : Op α := do
  let g ← permitted (Act.lend s a)
  thenClean (body g) (Act.act (.endBorrow g))

/-- Destroys a value that never got a block. -/
def scrap : Value → Act Unit
  | .plain _ p => (List.range p.count.toNat).forM fun i => do
    Act.act (.scrap (p.seed i))
    Act.drain
  | .node _ v f i q => do
    Act.act (.scrapNode v f i q)
    Act.drain

/-- Moves the handles of a value into the object that variable `j` owns. -/
def furnish (j : Nat) : Value → Op Unit
  | .plain .. => return ()
  | .node _ _ _ i q => borrowing (.owner j) .exclusive fun g => do
    act (.exchangeLink g 0 i)
    act (.exchangeBack g 0 q)

/-- Builds an object around a value that is already there: if no block is granted,
the value is destroyed. Nobody sees the object before its handles are in it. -/
def place (h : HeapId) (x : Value) : Op Nat := do
  match ← ExceptT.lift (Act.construct h x.kind x.plan) with
  | .ok i => do
    furnish i x
    return i
  | .error e => do
    ExceptT.lift (scrap x)
    quiesce
    throw (.refused (.heap e))

/-- Builds an object of any kind. -/
def build (h : HeapId) (k : Kind) (p : Plan) : Op Nat :=
  if k.shape = .array then buildRange h k p else place h (.plain k p)

/-- Destroys what an owner holds, and leaves it empty. -/
def reset (m : Manner) (o : OwnerPlace) : Op Unit := do
  inManner m (permitted (Act.resetAt o))
  quiesce

/-- Destroys what an owner holds, then gives it a new object on the same heap. The
new value goes with the operation if that fails. -/
def replace (o : OwnerPlace) (x : Value) : Op Unit := do
  let h := (← look fun w => w.heapOf (w.ownerAt o)).getD World.currentHeap
  match ← ExceptT.lift (reset .insist o).run with
  | .error fault => do
    ExceptT.lift (scrap x)
    throw fault
  | .ok () => do
    let j ← inManner .insist (place h x)
    act (o.exchange j)

/-- An owner goes away. -/
def dropOwner (i : Nat) : Op Unit := do
  act (.discardOwner i)
  quiesce

/-- An owner goes away while the program unwinds. -/
def dropOwnerUnwinding (i : Nat) : Op Unit := do
  act (.raise .unwinding)
  dropOwner i

/-- Owner `j` receives what owner `i` holds; then what `j` held goes away. -/
def takeOwner (i j : Nat) : Op Unit := do
  let t ← ExceptT.lift Act.newOwner
  act (.swapOwners i t)
  act (.swapOwners j t)
  dropOwner t

/-- Writes a number into the object that a handle leads to. -/
def write (m : Manner) (s : Source) (v : Int) : Op Unit :=
  inManner m (borrowing s .exclusive fun g => act (.put g v))

/-- The object that a handle leads to. -/
def read (m : Manner) (s : Source) : Op (RecordId × List Item) :=
  inManner m (inspect (·.inspect s .shared))

end Op

end Custody
