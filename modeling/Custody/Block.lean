import Custody.Layout

/-! Blocks of memory. A block starts with a header of six words; its payload
follows at an offset that suits it. What the payload holds is known byte by byte,
uniform, or not known at all. -/

namespace Custody

/-- The bytes of a payload. -/
inductive Contents where
  /-- Nothing is known of them. -/
  | unknown
  | uniform (byte : UInt8)
  /-- Byte by byte, where it is known. -/
  | bytes (bs : List (Option UInt8))
  deriving DecidableEq, Repr

def Contents.get? : Contents → Nat → Option UInt8
  | .unknown, _ => none
  | .uniform b, _ => some b
  | .bytes bs, i => (bs[i]?).join

/-- The `width` low bytes of a number, the least significant first. -/
def littleEndian : Nat → Nat → List UInt8
  | 0, _ => []
  | width + 1, n => UInt8.ofNat n :: littleEndian width (n / 256)

structure Block where
  base : Nat
  layout : Layout
  /-- Where the payload starts, counted from the base. -/
  offset : Nat
  payloadSize : Nat
  elements : Nat
  contents : Contents
  deriving DecidableEq, Repr

namespace Block

/-- The layout of the header. -/
def header : Layout := ⟨48, 8⟩

/-- The layout of a block around a payload, and where the payload starts. -/
def around (payload : Layout) : Option (Layout × Nat) :=
  (header.extend payload).map fun w => (w.1.padded, w.2)

def size (b : Block) : Nat := b.layout.size

/-- The address of the payload. -/
def payload (b : Block) : Nat := b.base + b.offset

/-- Whether an address lies in the payload. -/
def contains (b : Block) (address : Nat) : Bool :=
  b.payload ≤ address && address < b.payload + b.payloadSize

/-- Whether an address lies anywhere in the block. -/
def covers (b : Block) (address : Nat) : Bool :=
  b.base ≤ address && address < b.base + b.size

/-- The byte written over a payload that is quarantined. -/
def poison : UInt8 := 0xCD

def fill (b : Block) (byte : UInt8) : Block := { b with contents := .uniform byte }

def poisoned (b : Block) : Block := b.fill poison

/-- The header as it stands in memory, given the base of the block listed next. -/
def headerBytes (b : Block) (next : Nat) : List UInt8 :=
  [b.size, b.layout.align, b.offset, b.payloadSize, b.elements, next].flatMap (littleEndian 8)

/-- The byte at a distance from the base, where it is known. -/
def byte? (b : Block) (next distance : Nat) : Option UInt8 :=
  if distance < header.size then (b.headerBytes next)[distance]?
  else if b.offset ≤ distance && distance < b.offset + b.payloadSize then
    b.contents.get? (distance - b.offset)
  else none

/-- The block's text, with `base` standing for its address. -/
def describe (b : Block) (base : String) : String :=
  Text.fields "RawBlock"
    [("base", base), ("block_size", toString b.size), ("payload_size", toString b.payloadSize),
     ("elements", toString b.elements)]

end Block

/-- The supply of memory. Blocks are laid out one after another with room between
them, so no address is ever handed out twice. -/
structure Arena where
  next : Nat
  /-- The largest request that is granted. -/
  grant : Nat
  deriving DecidableEq, Repr

namespace Arena

/-- The room left after each block: so much that no step of a range's size leads from
one block into another. -/
def gap : Nat := 4294967296

/-- An arena that has handed out nothing; the room before it is larger than any gap. -/
def fresh (grant : Nat) : Arena := ⟨70368744177664, grant⟩

/-- A base for a block, unless more is asked for than is granted. -/
def place (a : Arena) (l : Layout) : Option (Nat × Arena) :=
  if a.grant < l.size then none
  else
    let base := roundUp a.next l.align
    some (base, { a with next := base + l.size + gap })

/-- A block around a payload. -/
def allocate (a : Arena) (payload : Layout) (elements : Nat) : Except HeapRefusal (Block × Arena) :=
  match Block.around payload with
  | none => .error (.layoutOverflow elements)
  | some (layout, offset) =>
    match a.place layout with
    | none => .error (.allocationFailed layout.size layout.align)
    | some (base, a') => .ok (⟨base, layout, offset, payload.size, elements, .unknown⟩, a')

end Arena

end Custody
